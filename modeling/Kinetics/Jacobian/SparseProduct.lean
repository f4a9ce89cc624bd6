import Kinetics.Emit.Target
import Kinetics.Mechanism.Reaction
/-!
# Multiplication by the Jacobian

A function that multiplies the matrix, stored by columns, with a vector. One mark decides for the
whole matrix: if the second entry of the first row is written, all entries take part, and
otherwise none.
-/

namespace Kinetics.Jacobian

open Code Emit

variable {α : Type} [Arithmetic α]

def productEntries (n : Nat) (written : List Bool) : Except Fault (List Nat) :=
  if n = 0 then .ok []
  else do return if ← entryAt written n then List.range (n * n) else []

def productTerm (n x : Nat) : Expr α :=
  .padded 1 0 (.cell "A" x * .cell "Vm" (x / n : Nat))

def productByRows (n : Nat) (entries : List Nat) : List (Step α) :=
  (List.range n).map fun (i : Nat) =>
    match (entries.filter (· % n = i)).map (productTerm n) with
    | [] => .set (.cell "w" i) 0
    | terms => .set (.cell "w" i) (sumOf {} terms)

/-- The statements that add one column after the other; the first term of a row sets it. -/
def productByColumns (n : Nat) (entries : List Nat) : List (Step α) :=
  let byColumn := (List.range n).flatMap fun i => entries.filter (· / n = i)
  let sums := byColumn.zipIdx.map fun (x, p) =>
    let row : Nat := x % n
    Step.assign 1 (.cell "w" row)
      (if (byColumn.take p).any (· % n = row) then .add else .set) (productTerm n x)
  let empty := (List.range n).filter fun i => !byColumn.any (· % n = i)
  sums ++ empty.map fun (i : Nat) => .assign 1 (.cell "w" i) .set 0

def ownLineMark (t : Target) : String := if t.onDevice then "__device__\n" else ""

def sparseProductFiles (t : Target) (n : Nat) (written : List Bool) :
    Except Fault (List (SourceFile α)) := do
  let entries ← productEntries n written
  let suffix ← t.language.headerSuffix
  let steps := if t.onDevice then productByColumns n entries else productByRows n entries
  return [
    { path := "sparse_multiplier" ++ suffix
      language := t.language
      parts := [
        .text ("#ifndef SPARSE_HEAD\n#define SPARSE_HEAD\n\n#define N_A " ++ toString entries.length
          ++ "\n#include \"header" ++ suffix ++ "\"\n\n" ++ ownLineMark t
          ++ "void sparse_multiplier (const double *, const double *, double*);\n"
          ++ "\n#ifdef COMPILE_TESTING_METHODS\n  int test_sparse_multiplier();\n#endif\n\n#endif\n")] },
    { path := "sparse_multiplier" ++ t.language.sourceSuffix
      language := t.language
      parts := [
        .text ("#include \"sparse_multiplier" ++ suffix ++ "\"\n\n" ++ ownLineMark t),
        .function
          { name := "sparse_multiplier"
            spaced := false
            params := [⟨"const double *", "A"⟩, ⟨"const double *", "Vm"⟩, ⟨"double*", "w"⟩] }
          (steps.map .step) "\x7d\n"] }]

end Kinetics.Jacobian
