import Kinetics.Code.Step
import Kinetics.Mechanism.Reaction
/-!
# Positions of a reaction

Forward rates are stored for every reaction, reverse rates only for reversible ones and pressure
modifications only for modified ones, so a reaction has three positions.
-/

namespace Kinetics.Jacobian

open Code

variable {α : Type}

structure Ranks where
  all : Nat
  reverse : Nat
  /-- The position among modified reactions, for those that are modified. -/
  modified : Option Nat
  deriving Repr, DecidableEq, Inhabited

def ranksAt (reactions : List (Reaction Nat α)) (i : Nat) : Ranks where
  all := i
  reverse := (reactions.take i).countP (·.reversible)
  modified :=
    if (reactions.drop i).head?.any (·.isModified) then
      some ((reactions.take i).countP (·.isModified))
    else none

namespace Ranks

def forward (k : Ranks) : Expr α := .cell "fwd_rates" k.all

def backward (k : Ranks) : Expr α := .cell "rev_rates" k.reverse

def modification (k : Ranks) : Expr α := .element "pres_mod" (k.modified.map Int.ofNat)

def difference (k : Ranks) (r : Reaction Nat α) : Expr α :=
  if r.reversible then k.forward - k.backward else k.forward

def net (k : Ranks) (r : Reaction Nat α) : Expr α :=
  if r.reversible then .group (k.difference r) else k.forward

end Ranks

/-- Whether third bodies are given by efficiencies or by a collider; a collider at the first
position does not count. -/
def hasColliders (r : Reaction Nat α) : Bool :=
  !r.efficiencies.isEmpty || match r.collider with
    | some s => s != 0
    | none => false

def needsModificationSlope (r : Reaction Nat α) : Bool := r.isModified && hasColliders r

/-! ## Remarks -/

def temperatureRemark (label : Int) : Step α :=
  .remark ("partial of rxn " ++ toString label ++ " wrt T")

def speciesRemark (label : Int) : Step α :=
  .remark ("partial of rxn " ++ toString label ++ " wrt species")

def finishRemarks : List (Step α) := [.remark "Finish dYk / Yj's", .remark "And dT/dYj's"]

end Kinetics.Jacobian
