import Kinetics.Arithmetic
/-!
# Species

A chemical species with its composition, weight and two-range thermodynamic polynomial.
-/

namespace Kinetics

/-- The seven coefficients of a thermodynamic polynomial on one temperature range. With them,
`cp/R = a1 + a2 T + a3 T² + a4 T³ + a5 T⁴`, and `a6`, `a7` fix enthalpy and entropy. -/
structure Nasa (α : Type) where
  a1 : α
  a2 : α
  a3 : α
  a4 : α
  a5 : α
  a6 : α
  a7 : α
  deriving Repr, Inhabited

namespace Nasa

variable {α : Type}

def const (x : α) : Nasa α := ⟨x, x, x, x, x, x, x⟩

def map (f : α → α) (p : Nasa α) : Nasa α :=
  ⟨f p.a1, f p.a2, f p.a3, f p.a4, f p.a5, f p.a6, f p.a7⟩

def add [Arithmetic α] (p q : Nasa α) : Nasa α :=
  ⟨p.a1 + q.a1, p.a2 + q.a2, p.a3 + q.a3, p.a4 + q.a4, p.a5 + q.a5, p.a6 + q.a6, p.a7 + q.a7⟩

def toList (p : Nasa α) : List α := [p.a1, p.a2, p.a3, p.a4, p.a5, p.a6, p.a7]

end Nasa

structure Species (α : Type) where
  name : String
  composition : List (String × α)
  /-- The molecular weight in kg/kmol; zero while it is unknown. -/
  weight : α
  high : Nasa α
  low : Nasa α
  lowest : α
  midpoint : α
  highest : α
  deriving Repr, Inhabited

namespace Species

variable {α : Type} [Arithmetic α]

def named (name : String) : Species α where
  name := name
  composition := []
  weight := Arithmetic.tenths 0
  high := Nasa.const (Arithmetic.tenths 0)
  low := Nasa.const (Arithmetic.tenths 0)
  lowest := Arithmetic.tenths 3000
  midpoint := Arithmetic.tenths 10000
  highest := Arithmetic.tenths 50000

def range (s : Species α) : List α := [s.lowest, s.midpoint, s.highest]

def covered {β : Type} (same : β → β → Bool) (xs ys : List β) : Bool :=
  xs.all fun x => ys.any (same x)

def agree {β : Type} (same : β → β → Bool) : List β → List β → Bool
  | [], [] => true
  | x :: xs, y :: ys => same x y && agree same xs ys
  | _, _ => false

/-- Whether a species is taken for another one: name, weight and polynomials agree, and what
stands in its lists is found in the lists of the other. -/
def resembles (s t : Species α) : Bool :=
  s.name == t.name
    && covered (fun x y => x.1 == y.1 && Arithmetic.eq x.2 y.2) s.composition t.composition
    && Arithmetic.eq s.weight t.weight
    && agree Arithmetic.eq s.high.toList t.high.toList
    && agree Arithmetic.eq s.low.toList t.low.toList
    && covered Arithmetic.eq s.range t.range

/-- The value of `a1 (log T - 1) + a2 T/2 + a3 T²/6 + a4 T³/12 + a5 T⁴/20 - a6/T + a7`, the
entropy minus the enthalpy in units of the gas constant, on one range. -/
def reducedGibbs (p : Nasa α) (T logT half T2 T3 T4 : α) : Except Fault α := do
  let last ← Arithmetic.div p.a6 T
  return p.a1 * (logT - Arithmetic.unit) + p.a2 * half + p.a3 * T2 + p.a4 * T3 + p.a5 * T4 - last
    + p.a7

/-- Standard-state entropy minus enthalpy, in units of the gas constant, of each species. -/
def entropyMinusEnthalpy (T : α) (species : List (Species α)) : Except Fault (List α) := do
  let logT ← Arithmetic.log T
  let T2 := T * T
  let T3 := T2 * T
  let T4 := T3 * T
  let half := Arithmetic.part T 2
  let T2 := Arithmetic.part T2 6
  let T3 := Arithmetic.part T3 12
  let T4 := Arithmetic.part T4 20
  species.mapM fun s =>
    let p := if Arithmetic.le T s.midpoint then s.low else s.high
    reducedGibbs p T logT half T2 T3 T4

end Species

end Kinetics
