/-!
# Tables

A table lists values by name, in the order in which the names were first given. A later value
takes the place of an earlier one.
-/

namespace Kinetics.Reactor

def assign {β : Type} (key : String) (value : β) : List (String × β) → List (String × β)
  | [] => [(key, value)]
  | (k, v) :: rest => if k = key then (k, value) :: rest else (k, v) :: assign key value rest

def tableOf {β : Type} (entries : List (String × β)) : List (String × β) :=
  entries.foldl (fun t (k, v) => assign k v t) []

end Kinetics.Reactor
