import Kinetics.Code.Step
import Kinetics.Mechanism.Reaction
/-!
# Equilibrium constants

The equilibrium constant is `(p/RT)^Σν exp(Σ ν_k g_k)`, where `g_k` is the reduced Gibbs function
of species `k`. Species with the same midpoint temperature share one conditional: their
polynomials, with `-log T` for the temperature power already taken in, are added up beforehand.
-/

namespace Kinetics.Rate

open Code

variable {α : Type} [Arithmetic α]

/-- The coefficients of `1, log T, T, T², T³, T⁴, -1/T` in the share of one polynomial in the
exponent. -/
def gibbsShare (nu : α) (p : Nasa α) : Nasa α :=
  Nasa.map (· * nu)
    ⟨p.a7 - p.a1, p.a1 - Arithmetic.unit, Arithmetic.part p.a2 2, Arithmetic.part p.a3 6,
      Arithmetic.part p.a4 12, Arithmetic.part p.a5 20, p.a6⟩

structure Exponents (α : Type) where
  midpoint : α
  low : Nasa α
  high : Nasa α
  deriving Inhabited

def addShare (shares : List (Exponents α)) (nu : α) (s : Species α) : List (Exponents α) :=
  let low := gibbsShare nu s.low
  let high := gibbsShare nu s.high
  if shares.any fun e => Arithmetic.eq e.midpoint s.midpoint then
    shares.map fun e =>
      if Arithmetic.eq e.midpoint s.midpoint then
        { e with low := low.add e.low, high := high.add e.high }
      else e
  else shares ++ [⟨s.midpoint, low, high⟩]

def exponentPolynomial (c : Nasa α) : Expr α :=
  .group (.full c.a1 + .full c.a2 * .logT
    + .T * .group (.full c.a3 + .T * .group (.full c.a4 + .T * .group (.full c.a5 + .full c.a6 * .T)))
    - .full c.a7 / .T)

def exponentItems : Bool → List (Exponents α) → List (Item α)
  | _, [] => []
  | first, e :: es =>
    let form := if first then Form.set else Form.accumulate
    .split 2 (.atMost "T" .shortest e.midpoint)
      [.assign 4 (.var "Kc") form (exponentPolynomial e.low)]
      [.assign 4 (.var "Kc") form (exponentPolynomial e.high)] ::
    exponentItems false es

/-- The reference concentration at one kelvin, raised to the change in the number of moles. -/
def molePower (change : α) : Except Fault α := do
  Arithmetic.pow (← Arithmetic.div atmosphere gasConstant) change

/-- The species that change, with their net coefficients: products first, then the reactants that
are no products. Products that cancel are left out. -/
def changes (r : Reaction Nat α) : Except Fault (List (Nat × α)) := do
  let products ← r.products.zipIdx.filterMapM fun (s, i) => do
    let made ← entryAt r.productNu i
    let nu ← match r.reactants.idxOf? s with
      | some j => do pure (made - (← entryAt r.reactantNu j))
      | none => pure made
    return if Arithmetic.isZero nu then none else some (s, nu)
  let reactants ← r.reactants.zipIdx.filterMapM fun (s, i) =>
    if r.products.contains s then .ok none
    else do return some (s, -(← entryAt r.reactantNu i))
  return products ++ reactants

def equilibriumItems (species : List (Species α)) (r : Reaction Nat α) :
    Except Fault (List (Item α)) := do
  let net ← changes r
  let shares ← net.foldlM (fun shares (s, nu) => do
    return addShare shares nu (← entryAt species s)) []
  let power ← molePower (Arithmetic.sum (net.map (·.2)))
  return exponentItems true shares
    ++ [.step (.setVar "Kc" (.full power * .exp (.var "Kc")))]

def ascending (xs : List Nat) : List Nat := (xs.mergeSort (· ≤ ·)).eraseDups

def participants (r : Reaction Nat α) : List Nat := ascending (r.reactants ++ r.products)

/-- The equilibrium constant for the Jacobian code; the power of one is left out. -/
def equilibriumItemsSorted (species : List (Species α)) (r : Reaction Nat α) :
    Except Fault (List (Item α)) := do
  let net ← (participants r).filterMapM fun s => do
    let sp ← entryAt species s
    let nu ← r.net s
    return if Arithmetic.isZero nu then none else some (sp, nu)
  let shares := net.foldl (fun shares (s, nu) => addShare shares nu s) []
  let change := Arithmetic.sum (net.map (·.2))
  let last ←
    if Arithmetic.isZero change then pure (.exp (.var "Kc"))
    else do pure (.full (← molePower change) * .exp (.var "Kc"))
  return exponentItems true shares ++ [.step (.setVar "Kc" last)]

end Kinetics.Rate
