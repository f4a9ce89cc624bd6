import Kinetics.Constants
import Mathlib
/-!
# Exact arithmetic

The numbers of a mechanism without rounding: a count is an integer and a
measurement a real number. Everything that is generic in the number type runs
on them, so a statement about exact numbers is a statement about the same
definitions that run on machine numbers.
-/

namespace Kinetics

noncomputable section

def Decimal.toReal (d : Decimal) : ℝ := d.mantissa * (10 : ℝ) ^ (d.exponent - d.places)

/-- An integer or a real number. -/
inductive Exact where
  | count (n : ℤ)
  | measure (x : ℝ)

namespace Exact

instance : Inhabited Exact := ⟨.count 0⟩

def toReal : Exact → ℝ
  | .count n => n
  | .measure x => x

/-- Applies one operation to counts and another one otherwise. -/
def combine (whole : ℤ → ℤ → ℤ) (real : ℝ → ℝ → ℝ) : Exact → Exact → Exact
  | .count m, .count n => .count (whole m n)
  | a, b => .measure (real a.toReal b.toReal)

def div (a b : Exact) : Except Fault Exact := open Classical in
  if b.toReal = 0 then .error .divisionByZero else .ok (.measure (a.toReal / b.toReal))

def powReal (x y : ℝ) : Except Fault Exact := open Classical in
  if x = 0 ∧ y < 0 then .error .divisionByZero else .ok (.measure (x ^ y))

/-- The power; counts with a nonnegative exponent stay counts. -/
def pow : Exact → Exact → Except Fault Exact
  | .count m, .count n => if 0 ≤ n then .ok (.count (m ^ n.toNat)) else powReal m n
  | a, b => powReal a.toReal b.toReal

def logWith (f : ℝ → ℝ) (a : Exact) : Except Fault Exact := open Classical in
  if a.toReal ≤ 0 then .error .outOfDomain else .ok (.measure (f a.toReal))

def isWhole (a : Exact) : Bool := open Classical in match a with
  | .count _ => true
  | .measure x => decide (∃ n : ℤ, x = n)

def wholePart (a : Exact) : ℤ := open Classical in match a with
  | .count n => n
  | .measure x => if 0 ≤ x then ⌊x⌋ else ⌈x⌉

open Classical in
instance : Arithmetic Exact where
  add := combine (· + ·) (· + ·)
  sub := combine (· - ·) (· - ·)
  mul := combine (· * ·) (· * ·)
  neg
    | .count n => .count (-n)
    | .measure x => .measure (-x)
  ofInt n := .count n
  ofDecimal d := .measure d.toReal
  div := div
  part a n := .measure (a.toReal / n)
  pow := pow
  log := logWith Real.log
  log10 := logWith (Real.logb 10)
  exp a := .measure (Real.exp a.toReal)
  abs
    | .count n => .count |n|
    | .measure x => .measure |x|
  eq a b := decide (a.toReal = b.toReal)
  lt a b := decide (a.toReal < b.toReal)
  le a b := decide (a.toReal ≤ b.toReal)
  isWhole := isWhole
  wholePart := wholePart
  isCount
    | .count _ => true
    | .measure _ => false
  pointed a := .measure a.toReal
  writable
    | .bounded _, .count _ => false
    | _, _ => true

/-! ## Values of results -/

@[simp] lemma toReal_count (n : ℤ) : (count n).toReal = n := rfl

@[simp] lemma toReal_measure (x : ℝ) : (measure x).toReal = x := rfl

@[simp] lemma toReal_add (a b : Exact) : (a + b).toReal = a.toReal + b.toReal := by
  change (combine (· + ·) (· + ·) a b).toReal = _
  cases a <;> cases b <;> simp [combine]

@[simp] lemma toReal_sub (a b : Exact) : (a - b).toReal = a.toReal - b.toReal := by
  change (combine (· - ·) (· - ·) a b).toReal = _
  cases a <;> cases b <;> simp [combine]

@[simp] lemma toReal_mul (a b : Exact) : (a * b).toReal = a.toReal * b.toReal := by
  change (combine (· * ·) (· * ·) a b).toReal = _
  cases a <;> cases b <;> simp [combine]

@[simp] lemma toReal_neg (a : Exact) : (-a).toReal = -a.toReal := by
  cases a
  · change (count _).toReal = _
    simp
  · rfl

@[simp] lemma toReal_abs (a : Exact) : (Arithmetic.abs a).toReal = |a.toReal| := by
  cases a
  · change (count _).toReal = _
    simp
  · rfl

@[simp] lemma toReal_pointed (a : Exact) : (Arithmetic.pointed a).toReal = a.toReal := rfl

@[simp] lemma toReal_part (a : Exact) (n : ℕ) : (Arithmetic.part a n).toReal = a.toReal / n := rfl

@[simp] lemma toReal_ofInt (n : ℤ) : (Arithmetic.ofInt n : Exact).toReal = n := rfl

@[simp] lemma toReal_zero : (Arithmetic.zero : Exact).toReal = 0 := by
  simp [Arithmetic.zero]

@[simp] lemma toReal_one : (Arithmetic.one : Exact).toReal = 1 := by
  simp [Arithmetic.one]

@[simp] lemma toReal_tenths (n : ℕ) : (Arithmetic.tenths n : Exact).toReal = n / 10 := by
  change Decimal.toReal ⟨n, 1, 0⟩ = _
  simp [Decimal.toReal, div_eq_mul_inv]

@[simp] lemma toReal_unit : (Arithmetic.unit : Exact).toReal = 1 := by
  norm_num [Arithmetic.unit]

lemma toReal_foldl_add (xs : List Exact) (a : Exact) :
    (xs.foldl (· + ·) a).toReal = a.toReal + (xs.map toReal).sum := by
  induction xs generalizing a with
  | nil => simp
  | cons x xs ih => rw [List.foldl_cons, ih, toReal_add, List.map_cons, List.sum_cons, add_assoc]

@[simp] lemma toReal_sum (xs : List Exact) : (Arithmetic.sum xs).toReal = (xs.map toReal).sum := by
  rw [Arithmetic.sum, toReal_foldl_add, toReal_zero, zero_add]

lemma gasConstant_pos : 0 < (gasConstant : Exact).toReal := by
  change (0 : ℝ) < Decimal.toReal ⟨83144621, 4, 0⟩
  simp [Decimal.toReal]

lemma atmosphere_pos : 0 < (atmosphere : Exact).toReal := by
  change (0 : ℝ) < Decimal.toReal ⟨1013250, 1, 0⟩
  simp [Decimal.toReal]

/-! ## Tests of values -/

@[simp] lemma eq_iff (a b : Exact) : Arithmetic.eq a b = true ↔ a.toReal = b.toReal :=
  @decide_eq_true_iff _ (Classical.propDecidable _)

@[simp] lemma eq_false_iff (a b : Exact) : Arithmetic.eq a b = false ↔ a.toReal ≠ b.toReal :=
  @decide_eq_false_iff_not _ (Classical.propDecidable _)

@[simp] lemma lt_iff (a b : Exact) : Arithmetic.lt a b = true ↔ a.toReal < b.toReal :=
  @decide_eq_true_iff _ (Classical.propDecidable _)

@[simp] lemma le_iff (a b : Exact) : Arithmetic.le a b = true ↔ a.toReal ≤ b.toReal :=
  @decide_eq_true_iff _ (Classical.propDecidable _)

@[simp] lemma isZero_iff (a : Exact) : Arithmetic.isZero a = true ↔ a.toReal = 0 := by
  simp [Arithmetic.isZero]

@[simp] lemma isZero_false_iff (a : Exact) : Arithmetic.isZero a = false ↔ a.toReal ≠ 0 := by
  simp [Arithmetic.isZero]

@[simp] lemma isPositive_iff (a : Exact) : Arithmetic.isPositive a = true ↔ 0 < a.toReal := by
  simp [Arithmetic.isPositive]

@[simp] lemma isNegative_iff (a : Exact) : Arithmetic.isNegative a = true ↔ a.toReal < 0 := by
  simp [Arithmetic.isNegative]

variable {a : Exact}

lemma isWhole_of_eq {n : ℤ} (h : a.toReal = n) : Arithmetic.isWhole a = true := by
  cases a with
  | count m => rfl
  | measure x =>
    have hx : ∃ m : ℤ, x = m := ⟨n, h⟩
    exact @decide_eq_true _ (Classical.propDecidable _) hx

lemma exists_of_isWhole (h : Arithmetic.isWhole a = true) : ∃ n : ℤ, a.toReal = n := by
  cases a with
  | count m => exact ⟨m, rfl⟩
  | measure x => exact @of_decide_eq_true (∃ n : ℤ, x = n) (Classical.propDecidable _) h

lemma isWhole_of_isCount (h : Arithmetic.isCount a = true) : Arithmetic.isWhole a = true := by
  cases a with
  | count m => rfl
  | measure x => cases h

lemma wholePart_of_eq {n : ℤ} (h : a.toReal = n) : Arithmetic.wholePart a = n := by
  cases a with
  | count m => exact Int.cast_injective (α := ℝ) h
  | measure x =>
    change wholePart (.measure x) = n
    obtain rfl : x = n := h
    simp [wholePart]

/-! ## Quotients, logarithms and powers -/

lemma div_ok {a b : Exact} (h : b.toReal ≠ 0) : Arithmetic.div a b = .ok (.measure (a.toReal / b.toReal)) := by
  change div a b = _
  simp [div, h]

lemma div_eq_ok {a b c : Exact} (h : Arithmetic.div a b = .ok c) : b.toReal ≠ 0 ∧ c.toReal = a.toReal / b.toReal := by
  change div a b = _ at h
  unfold div at h
  split at h
  · cases h
  · cases h
    exact ⟨by assumption, rfl⟩

lemma log_ok (h : 0 < a.toReal) : Arithmetic.log a = .ok (.measure (Real.log a.toReal)) := by
  change logWith Real.log a = _
  simp [logWith, not_le.2 h]

lemma pow_ok {a b : Exact} (h : 0 < a.toReal) : ∃ c, Arithmetic.pow a b = .ok c ∧ c.toReal = a.toReal ^ b.toReal := by
  have hr : powReal a.toReal b.toReal = .ok (.measure (a.toReal ^ b.toReal)) := by
    simp [powReal, h.ne']
  change ∃ c, pow a b = .ok c ∧ _
  cases a with
  | measure x => exact ⟨_, hr, rfl⟩
  | count m =>
    cases b with
    | measure y => exact ⟨_, hr, rfl⟩
    | count n =>
      by_cases hn : 0 ≤ n
      · refine ⟨_, if_pos hn, ?_⟩
        lift n to ℕ using hn
        simp
      · exact ⟨_, (if_neg hn).trans hr, rfl⟩

end Exact

end

end Kinetics
