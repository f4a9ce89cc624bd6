/-!
# Compiling several files at once

What is handed to the compiler for a list of object files. Arguments are passed on unseen.
-/

namespace Kinetics.Library

structure Batch (τ : Type) where
  sources : τ
  output : τ
  macros : τ
  includes : τ
  debug : τ
  before : τ
  after : τ
  depends : τ

namespace Batch

variable {τ : Type}

def preparation (b : Batch τ) : List τ :=
  [b.output, b.macros, b.includes, b.sources, b.depends, b.after]

def wording (b : Batch τ) (preprocessor : τ) : List τ := [preprocessor, b.debug, b.before]

/-- The source and ending of each object file, in order. Objects without source are left out, and
of two sources for one object the last counts. -/
def units (build : List (String × String × String)) (objects : List String) :
    List (String × String × String) :=
  objects.filterMap fun o => (build.reverse.lookup o).map fun s => (o, s)

end Batch

end Kinetics.Library
