import Kinetics.Code.Language
import Kinetics.Workspace.Path
/-!
# The sources of a library

Which of the generated files make up a library. Code that was split into parts comes with a list of
them, and the list of the last generation is the one that counts.
-/

namespace Kinetics.Library

structure Selection where
  language : String
  modified : Bool
  /-- Whether the Jacobian comes from finite differences. -/
  finiteDifference : Bool := false
  /-- Whether the Jacobian comes from differentiable code. -/
  differentiable : Bool := false
  deriving Repr, Inhabited

/-- The folders that are searched for headers, and the paths of the sources without ending. -/
structure Sources where
  includes : List String
  files : List String
  deriving Repr, DecidableEq, Inhabited

/-- The paths of the parts that a list names. A part without the ending of the language makes the
whole list void. -/
def readParts (folder : String) (language : String) (text : String) : Option (List String) := do
  let l ← (Language.ofName language).toOption
  let line := (Text.lines text).headD []
  (Text.splitAtChar ' ' (Text.strip line)).mapM fun name => do
    let i ← Text.find? l.sourceSuffix.toList name
    return Path.join folder (String.ofList (name.take i))

/-- The folders with parts of the code and the start of the names of their lists. -/
def Selection.partLists (s : Selection) : List (String × String) :=
  (if s.finiteDifference then [] else [("jacobs", "jac_list_")]) ++ [("rates", "rate_list_")]

def addParts (look : String → Option String) (source : String) (s : Selection) (out : Sources)
    (folder listStart : String) : Sources :=
  let parts := do
    readParts folder s.language
      (← look (Path.join (Path.join source folder) (listStart ++ s.language)))
  match parts with
  | some files => ⟨out.includes ++ [Path.join source folder], out.files ++ files⟩
  | none => out

def Selection.sources (s : Selection) (look : String → Option String) (source : String) : Sources :=
  if s.differentiable then
    ⟨[source], ["ad_dydt", "ad_rxn_rates", "ad_spec_rates", "ad_chem_utils", "ad_jac"]
      ++ if s.modified then ["ad_rxn_rates_pres_mod"] else []⟩
  else
    let base : Sources := ⟨[source],
      ["chem_utils", "dydt", "spec_rates", "rxn_rates", "mechanism", "mass_mole"]
        ++ (if s.modified then ["rxn_rates_pres_mod"] else [])
        ++ [if s.finiteDifference then "fd_jacob" else "jacob"]⟩
    let out := s.partLists.foldl (fun out (folder, start) => addParts look source s out folder start)
      base
    { out with files := out.files ++ if s.language == "cuda" then ["gpu_memory"] else [] }

end Kinetics.Library
