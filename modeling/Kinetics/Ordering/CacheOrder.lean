import Kinetics.Mechanism.Reaction
import Kinetics.Ordering.Search
/-!
# Orders that suit the cache

Reactions that share species are put close together, and so are species that share reactions; one
chosen species goes to the end. The result is kept and used again for a mechanism that resembles
the one it was found for.
-/

namespace Kinetics.Ordering

open Random

variable {α : Type} [Arithmetic α]

/-- A reordered mechanism. The forward maps give the former position for each position, the
backward maps the position for each former one. -/
structure Reordered (α : Type) where
  species : List (Species α)
  reactions : List (Reaction String α)
  speciesForward : List Int
  reactionsForward : List Nat
  speciesBackward : List Nat
  reactionsBackward : List Nat
  deriving Inhabited

structure Effort where
  considerThirdBodies : Bool := false
  /-- The mean number of steps in a row without gain after which a round ends. -/
  patience : Int := 20
  tries : Int := 10000
  reach : Int := 2
  rounds : Int := 5
  time : Int := 6000
  deriving Repr, Inhabited

/-- What outlives a failed optimization: the state of the random source, text for the user, and
the last result. -/
structure Desk (α : Type) where
  source : Nat
  said : String := ""
  kept : Option (Reordered α) := none
  deriving Inhabited

abbrev Optimizer (α β : Type) := ExceptT Fault (StateM (Desk α)) β

def report (line : String) : Optimizer α Unit :=
  modify fun (d : Desk α) => { d with said := d.said ++ line ++ "\n" }

def chance {β : Type} (c : Chance β) : Optimizer α β := fun (d : Desk α) =>
  let (r, s) := StateT.run (ExceptT.run c) d.source
  (r, { d with source := s })

def entryFrom {β : Type} (xs : List β) (i : Int) : Except Fault β :=
  let k := if i < 0 then i + xs.length else i
  if k < 0 then .error .missingEntry else entryAt xs k.toNat

/-! ## Searching -/

def reactionRows (names : List String) (reactions : List (Reaction String α)) :
    Except Fault (List (List Nat)) :=
  reactions.mapM fun r => (r.reactants ++ r.products).mapM (speciesIndex names)

def flagRows (n : Nat) (members : List (List Nat)) : List Row :=
  members.map fun is => (List.range n).map is.contains

def columnRows (n : Nat) (members : List (List Nat)) : List Row :=
  (List.range n).map fun j => members.map (·.contains j)

structure Plan where
  reaches : List Int
  rounds : List Int
  patiences : List Int

def Effort.plan (src : Source) (e : Effort) : Chance Plan := do
  let count := (e.tries + 1).toNat
  let reaches ← src.several 1 (e.reach + 1) count
  let rounds ← src.several 1 (e.rounds + 1) count
  let patiences ← src.several (Int.tdiv e.patience 2) (Int.tdiv (3 * e.patience) 2) count
  return { reaches, rounds, patiences }

/-- Runs all searches over the `n` rows without the excluded ones. Every hundredth starts with the
given order, the others with a random one. -/
def searches (src : Source) (p : Plan) (rows : List Row) (n : Nat) (keep : Nat → Bool)
    (tries : Nat) : Chance (List (α × List Nat)) :=
  (List.range tries).mapM fun i => do
    let order ← if i % 100 = 0 then pure (List.range n) else src.permutation n
    search src rows (order.filter keep) (p.reaches.getD i 0).toNat (p.patiences.getD i 0).toNat
      (p.rounds.getD i 0).toNat

def bestOf (what : String) (time : Int) (results : List (α × List Nat)) :
    Optimizer α (List Nat) := do
  if 0 < time then
    if results.isEmpty then throw .divisionByZero
    report (what ++ " Optimization 100.0% complete...")
  match greatest results with
  | some (_, order) => return order
  | none => throw .unacceptable

def positions (order : List Int) : Except Fault (List Nat) :=
  (List.range order.length).mapM fun (i : Nat) =>
    match order.idxOf? (i : Int) with
    | some k => .ok k
    | none => .error .notListed

def reorder (src : Source) (e : Effort) (species : List (Species α))
    (reactions : List (Reaction String α)) (last : Int) : Optimizer α (Reordered α) := do
  let names := species.map (·.name)
  let n := species.length
  let _ ← entryFrom species last
  let members ← reactionRows names reactions
  if e.considerThirdBodies then
    for r in reactions do
      let _ ← r.efficiencies.mapM fun (s, _) => speciesIndex names s
  let plan ← chance (e.plan src)
  let tries := e.tries.toNat
  let found ← chance (searches src plan (flagRows n members) reactions.length (fun _ => true) tries)
  let reactionsForward ← bestOf "Reaction" e.time found
  let found ← chance (searches src plan (columnRows n members) n (fun i => (i : Int) != last) tries)
  let best ← bestOf "Species" e.time found
  let speciesForward := best.map Int.ofNat ++ [last]
  let speciesBackward ← positions speciesForward
  let reactionsBackward ← positions (reactionsForward.map Int.ofNat)
  let placedSpecies ← (speciesForward.mapM (entryFrom species) : Except Fault _)
  let placedReactions ← (reactionsForward.mapM (entryAt reactions) : Except Fault _)
  let result : Reordered α := {
    species := placedSpecies
    reactions := placedReactions
    speciesForward, reactionsForward, speciesBackward, reactionsBackward }
  modify fun (d : Desk α) => { d with kept := some result }
  return result

/-! ## Using a result again -/

def Reordered.suits (old : Reordered α) (species : List (Species α))
    (reactions : List (Reaction String α)) : Bool :=
  old.species.all (fun s => species.any s.resembles)
    && species.length == old.species.length
    && old.reactions.all (fun r => reactions.any r.resembles)
    && reactions.length == old.reactions.length

def Reordered.otherLast (old : Reordered α) (species : List (Species α)) (last : Int) :
    Except Fault (Option String) := do
  if ((← entryFrom old.speciesBackward last : Nat) : Int) = (species.length : Int) - 1 then
    return none
  let before ← entryFrom species (← lastEntry old.speciesForward)
  let now ← entryFrom species last
  return some ("Different last species detected, old species was " ++ before.name
    ++ " and new species is " ++ now.name)

def reuse (species : List (Species α)) (reactions : List (Reaction String α)) (last : Int) :
    Optimizer α (Option (Reordered α)) := do
  report "Checking for old optimization"
  let notFound := report
    "Old optimization file not found, or does not match current mechanism... forcing optimization"
  match (← get).kept with
  | none => notFound; return none
  | some old =>
    match old.otherLast species last with
    | .error _ => notFound; return none
    | .ok (some difference) =>
      report difference
      report "Forcing reoptimization..."
      return none
    | .ok none =>
      if old.suits species reactions then
        report ("Old optimization file matching current mechanism found..."
          ++ " returning previous optimization")
        return some old
      return none

def optimize (src : Source) (e : Effort) (species : List (Species α))
    (reactions : List (Reaction String α)) (last : Int) (force : Bool) :
    Optimizer α (Reordered α) := do
  report "Beginning Cache-optimization process..."
  if !force then
    match ← reuse species reactions last with
    | some old => return old
    | none => reorder src e species reactions last
  else reorder src e species reactions last

end Kinetics.Ordering
