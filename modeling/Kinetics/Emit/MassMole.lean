import Kinetics.Emit.Target
import Kinetics.Mechanism.Reaction
/-!
# The file of conversions between mass and mole fractions

These functions run on the host, so code for an accelerator uses the array notation of the host
language. Other languages have these conversions only where no element but the last takes part.
-/

namespace Kinetics.Emit

open Code

variable {α : Type} [Arithmetic α]

def leftFraction (name array : String) (n : Nat) : List (Step α) :=
  [.declare 2 "double" [name] none none .native,
    .setVar name (1.0 - .group (sumOf { breakBefore := .past 15 }
      ((List.range (n - 1)).map fun (i : Nat) => .cell array i)))]

/-- The sum of contributions of all species to a variable. In braces the last species is given by
its fraction; elsewhere all species are array elements. -/
def weightedSum (l : Language) (array last : String) (term : Expr α → α → Expr α)
    (species : List (Species α)) : Except Fault (List (Step α)) := do
  let add := fun (fraction : Expr α) (s : Species α) =>
    Step.assign 2 (.var "mw_avg") .accumulate (term fraction s.weight)
  match l with
  | .c | .cuda => do
    let final ← lastEntry species
    return .declare 2 "double" ["mw_avg"] none (some 0.0) .semicolon ::
      (species.dropLast.zipIdx.map fun (s, (i : Nat)) => add (.cell array i) s)
      ++ [add (.var last) final]
  | .fortran => return .setVar "mw_avg" 0.0 ::
      species.zipIdx.map fun (s, (i : Nat)) => add (.cell array i) s
  | .matlab => return []

def sumRemark (l : Language) : List (Step α) :=
  if l == .matlab then [] else [.remark " average molecular weight"]

def convertEach (l : Language) (title : String) (target source : String)
    (convert : Expr α → α → Expr α) (species : List (Species α)) : List (Step α) :=
  let members := match l with
    | .c | .cuda => species.dropLast
    | .fortran => species
    | .matlab => []
  (if l == .matlab then [] else [.remark title])
    ++ members.zipIdx.map fun (s, (i : Nat)) => .set (.cell target i) (convert (.cell source i) s.weight)

def moleToMass (l : Language) (species : List (Species α)) : Except Fault (List (Step α)) := do
  return List.flatten [
    .slashRemark " mole fraction of final species" :: leftFraction "X_N" "X" species.length,
    sumRemark l,
    ← weightedSum l "X" "X_N" (fun x w => x * Expr.full w) species,
    [.blank],
    convertEach l " calculate mass fractions" "Y" "X"
      (fun x w => x * Expr.full w / Expr.var "mw_avg") species]

def massToMole (l : Language) (species : List (Species α)) : Except Fault (List (Step α)) := do
  let title := if l == .fortran then " calculate mass fractions" else " calculate mole fractions"
  return List.flatten [
    .slashRemark " mass fraction of final species" :: leftFraction "Y_N" "Y" species.length,
    sumRemark l,
    ← weightedSum l "Y" "Y_N" (fun x w => x / Expr.full w) species,
    if l.isBraced then [.setVar "mw_avg" (1.0 / Expr.var "mw_avg")] else [],
    [.blank],
    convertEach l title "X" "Y" (fun x w => x * Expr.var "mw_avg" / Expr.full w) species]

def densityBody (l : Language) (species : List (Species α)) : Except Fault (List (Step α)) := do
  let density : Expr α :=
    Expr.pres * Expr.var "mw_avg" / Expr.group (Expr.sci 8 gasConstant * Expr.var "temp")
  return List.flatten [
    .slashRemark " mole fraction of final species" :: leftFraction "X_N" "X" species.length,
    sumRemark l,
    ← weightedSum l "X" "X_N" (fun x w => x * Expr.full w) species,
    if l == .matlab then [] else [.blank],
    [if l.isBraced then .give 2 density else .setVar "rho" density]]

def ruledLine : String := "!-----------------------------------------------------------------\n"

def conversionParts (l : Language) (about : List String) (opening : String) (closing : String)
    (fortranAbout : List String) (fortranOpening fortranClosing : String) (body : List (Step α)) :
    List (FilePart α) :=
  let steps := body.map Item.step
  match l with
  | .c | .cuda => [.routine (String.join about ++ opening ++ "\n") steps closing]
  | .fortran =>
    [.routine (ruledLine ++ String.join fortranAbout ++ ruledLine ++ fortranOpening ++ "\n") steps
      fortranClosing]
  | .matlab => [.routine "" steps ""]

def massMoleHeader (l : Language) : List (SourceFile α) :=
  match l.headerSuffix with
  | .error _ => []
  | .ok suffix => [{
      path := "mass_mole" ++ suffix
      language := l
      parts := [.text ("#ifndef MASS_MOLE_HEAD\n#define MASS_MOLE_HEAD\n\n#include \"header" ++ suffix
        ++ "\"\n\nvoid mole2mass (const double*, double*);\n"
        ++ "void mass2mole (const double*, double*);\n"
        ++ "double getDensity (const double, const double, const double*);\n\n#endif\n")] }]

def massMoleFiles (l : Language) (species : List (Species α)) :
    Except Fault (List (SourceFile α)) := do
  if !l.isBraced && decide (2 ≤ species.length) then throw (.unset "array notation")
  let includes := match l.headerSuffix with
    | .ok suffix => "#include \"mass_mole" ++ suffix ++ "\"\n\n"
    | .error _ => ""
  let source : SourceFile α := {
    path := "mass_mole" ++ l.sourceSuffix
    language := if l.isBraced then .c else l
    parts := .text includes
      :: conversionParts l
        ["/** Function converting species mole fractions to mass fractions.\n *\n",
          " * \\param[in]  X  array of species mole fractions\n",
          " * \\param[out] Y  array of species mass fractions\n */\n"]
        "void mole2mass (const double * X, double * Y) \x7b\n" "\n\x7d // end mole2mass\n\n"
        ["!> Subroutine converting species mole fractions to mass fractions.\n",
          "!! @param[in]  X  array of species mole fractions\n",
          "!! @param[out] Y  array of species mass fractions\n"]
        ("subroutine mole2mass (X, Y)\n  implicit none\n"
          ++ "  double, dimension(:), intent(in) :: X\n  double, dimension(:), intent(out) :: X\n"
          ++ "  double :: mw_avg\n")
        "\nend subroutine mole2mass\n\n" (← moleToMass l species)
      ++ conversionParts l
        ["/** Function converting species mass fractions to mole fractions.\n *\n",
          " * \\param[in]  Y  array of species mass fractions\n",
          " * \\param[out] X  array of species mole fractions\n */\n"]
        "void mass2mole (const double * Y, double * X) \x7b\n" "\n\x7d // end mass2mole\n\n"
        ["!> Subroutine converting species mass fractions to mole fractions.\n",
          "!! @param[in]  Y  array of species mass fractions\n",
          "!! @param[out] X  array of species mole fractions\n"]
        ("subroutine mass2mole (Y, X)\n  implicit none\n"
          ++ "  double, dimension(:), intent(in) :: Y\n  double, dimension(:), intent(out) :: X\n"
          ++ "  double :: mw_avg\n")
        "\nend subroutine mass2mole\n\n" (← massToMole l species)
      ++ conversionParts l
        ["/** Function calculating density from mole fractions.\n *\n",
          " * \\param[in]  temp  temperature\n * \\param[in]  pres  pressure\n",
          " * \\param[in]  X     array of species mole fractions\n",
          " * \\return     rho  mixture mass density\n */\n"]
        "double getDensity (const double temp, const double pres, const double * X) \x7b\n"
        "\x7d // end getDensity\n\n"
        ["!> Function calculating density from mole fractions.\n",
          "!! @param[in]  temp  temperature\n!! @param[in]  pres  pressure\n",
          "!! @param[in]  X     array of species mole fractions\n",
          "!! @return     rho   mixture mass density\n"]
        ("function mass2mole (temp, pres, X) result(rho)\n  implicit none\n"
          ++ "  double, intent(in) :: temp, pres\n  double, dimension(:), intent(in) :: X\n"
          ++ "  double :: mw_avg, rho\n")
        "end function getDensity\n\n" (← densityBody l species) }
  return massMoleHeader l ++ [source]

end Kinetics.Emit
