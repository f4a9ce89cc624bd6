import Kinetics.Text.Case
import Kinetics.Workspace.Job
/-!
# The last species

The mass fraction of the last species follows from the others. It should be an inert one: the
user can name it, and otherwise nitrogen, argon or helium is looked for.
-/

namespace Kinetics.Generation

open Workspace

def lowered (s : String) : String := String.ofList (Text.lower s.toList)

def namedSpecies (species : List (Species Scalar)) (name : String) : Option Nat :=
  let wanted := Text.strip (Text.lower name.toList)
  species.findIdx? fun s => Text.lower s.name.toList == wanted

/-- Bath gases with their weights, in order of preference. The weights are those of the standard
table, also if the mechanism gives others. -/
def bathGases : List (String × Scalar) :=
  let weight := fun (e : String) => (Weights.standard.get? e).getD Arithmetic.zero
  [("N2", weight "n" * .float 2.0), ("Ar", weight "ar"), ("He", weight "he")]

/-- The position of the first bath gas of a mechanism; its weight has to be right too. -/
def bathGas (species : List (Species Scalar)) : Option Nat :=
  bathGases.findSome? fun (name, weight) =>
    species.findIdx? fun s => lowered name == lowered s.name && Arithmetic.eq weight s.weight

def defaultLast (species : List (Species Scalar)) : Job Nat := do
  match bathGas species with
  | some i =>
    Job.say ("Default last species " ++ ((species[i]?).elim "" (·.name)) ++ " found.")
    return i
  | none =>
    Job.say ("Warning: Neither a user specified or default last species could be found. "
      ++ "Proceeding using the last species in the base mechanism: "
      ++ (species.getLast?.elim "" (·.name)))
    return species.length - 1

def chooseLast (species : List (Species Scalar)) (wanted : Option String) : Job Nat := do
  match wanted with
  | none =>
    Job.say ("User specified last species not found or not specified.  "
      ++ "Attempting to find a default species")
    defaultLast species
  | some name =>
    match namedSpecies species name with
    | some i => return i
    | none =>
      Job.say ("Warning: User specified last species " ++ name ++ " not found in mechanism."
        ++ "  Attempting to find a default species.")
      defaultLast species

end Kinetics.Generation
