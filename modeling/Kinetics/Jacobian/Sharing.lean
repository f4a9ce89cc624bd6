import Kinetics.Jacobian.Ranks
import Kinetics.Rate.Equilibrium
/-!
# Shared memory for the Jacobian

Which locations the derivatives of a reaction use, and how often. The counts decide which of them
get a place in shared memory.
-/

namespace Kinetics.Jacobian

variable {α : Type} [Arithmetic α]

def addAt (xs : List α) (i : Nat) (x : α) : List α := xs.modify i (· + x)

/-- Uses of the concentrations of one side of an equation in the derivatives by `n` species. Each
species with an order above one is used in every derivative; each first occurrence of another
species once for every member of the side. -/
def sideUses (n : Nat) (species : List Nat) (nu : List α) (extra : Bool) :
    Except Fault (List α) := do
  let start := List.replicate species.length (Arithmetic.zero : α)
  species.zipIdx.foldlM (fun uses (s, i) => do
    let below := (← entryAt nu i) - Arithmetic.one
    let order := Arithmetic.isPositive below
    let uses := if order && extra then addAt uses i Arithmetic.one else uses
    return (List.range n).foldl (fun uses t =>
      let uses := if order then addAt uses i below else uses
      if s = t then uses
      else match species.idxOf? t with
        | some j => addAt uses j Arithmetic.one
        | none => uses) uses) start

def modificationUses (n : Nat) (r : Reaction Nat α) : Int :=
  (if r.thirdBody then 3 else 2) + (r.reactants.length * n : Nat)

def usedSpecies (r : Reaction Nat α) : List Nat :=
  Rate.ascending (r.reactants ++ r.products ++ r.efficiencies.map (·.1))

def usesOf (species : List Nat) (uses : List α) (s : Nat) : α :=
  match species.idxOf? s with
  | some i => uses.getD i Arithmetic.zero
  | none => Arithmetic.zero

/-- The locations that a reaction uses in its derivatives, with the number of uses. -/
def sharedUses (n : Nat) (k : Ranks) (r : Reaction Nat α) :
    Except Fault (List ((String × Option Int) × α)) := do
  let reactantUses ← sideUses n r.reactants r.reactantNu true
  let productUses ←
    if r.reversible then sideUses n r.products r.productNu false
    else pure (List.replicate r.products.length Arithmetic.zero)
  let rates := [(("fwd_rates", some (k.all : Int)), Arithmetic.ofInt 3)]
    ++ (if r.reversible then [(("rev_rates", some (k.reverse : Int)), Arithmetic.ofInt 3)] else [])
    ++ (match k.modified with
      | some m => [(("pres_mod", some (m : Int)), Arithmetic.ofInt (modificationUses n r))]
      | none => [])
  return rates ++ (usedSpecies r).map fun (s : Nat) =>
    (("conc", some (s : Int)), Arithmetic.zero + usesOf r.reactants reactantUses s
      + usesOf r.products productUses s)

end Kinetics.Jacobian
