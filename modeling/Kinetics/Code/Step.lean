import Kinetics.Code.Expr
/-!
# Statements of emitted code

A `Step` is one line or one logical line; an `Item` is a step or a choice between blocks of steps.
Choices are not nested, because emitted code never nests them.
-/

namespace Kinetics.Code

inductive Form where
  | set
  /-- The target takes the value; no blank before the sign. -/
  | setTight
  | add
  | subtract
  | multiply
  /-- The value is added, in the way that suits languages without compound assignment. -/
  | accumulate
  deriving Repr, DecidableEq, Inhabited

/-- Which mark opens a comment. -/
inductive Mark where
  | native
  /-- Two slashes, whatever the language. -/
  | slashes
  deriving Repr, DecidableEq, Inhabited

/-- What ends a line. -/
inductive Ending where
  /-- The end of a statement in the target language. -/
  | native
  /-- A semicolon and a line feed, whatever the language. -/
  | semicolon
  /-- A semicolon only: the next statement stands on the same line. -/
  | joined
  deriving Repr, DecidableEq, Inhabited

/-- One statement, comment or empty line. -/
inductive Step (α : Type) where
  | assign (indent : Nat) (target : Expr α) (form : Form) (value : Expr α)
  /-- Declared names with a common type, each possibly an array, with an optional first value. -/
  | declare (indent : Nat) (type : String) (names : List String) (size : Option Int)
      (value : Option (Expr α)) (ending : Ending)
  /-- A call; `spaced` if a blank precedes the parenthesis. -/
  | call (indent : Nat) (function : String) (spaced : Bool) (arguments : List (Expr α))
  /-- A value given back by a function. -/
  | give (indent : Nat) (value : Expr α)
  | comment (indent : Nat) (mark : Mark) (text : String) (ended : Bool)
  | blank
  /-- A line that is neither statement nor comment. -/
  | line (text : String)
  deriving Repr, Inhabited

/-- When a block of a choice runs. -/
inductive Condition (α : Type) where
  | atMost (quantity : String) (format : NumberFormat) (bound : α)
  | above (quantity : String) (format : NumberFormat) (bound : α)
  | between (quantity : String) (format : NumberFormat) (lower upper : α)
  deriving Repr, Inhabited

/-- A step, a choice, or an instruction to the shared memory that leaves no text of its own. -/
inductive Item (α : Type) where
  | step (s : Step α)
  /-- Two blocks on either side of a bound, in the words of the target language; an empty line
  follows. -/
  | split (indent : Nat) (condition : Condition α) (below above : List (Step α))
  /-- Blocks of which the first with a true condition runs, written with braces; the last brace may
  be missing. -/
  | choice (indent : Nat) (arms : List (Condition α × List (Step α))) (closed : Bool)
  /-- Locations that should be held in shared memory from here on, with estimated uses. -/
  | load (wanted : List ((String × Option Int) × α))
  /-- Locations whose slots may be given up. -/
  | release (locations : List (String × Option Int))
  /-- Locations that were looked up without leaving a trace in the text. -/
  | consult (locations : List (String × Option Int))
  deriving Inhabited

namespace Step

variable {α : Type}

def set (target value : Expr α) : Step α := assign 2 target .set value

/-- An assignment to a scalar with the indentation of a function body. -/
def setVar (name : String) (value : Expr α) : Step α := set (.var name) value

/-- A remark with the indentation of a function body, in the target language. -/
def remark (text : String) : Step α := comment 2 .native text false

def slashRemark (text : String) : Step α := comment 2 .slashes text false

def cells : Step α → List (String × Option Int)
  | .assign _ target _ value => target.cells ++ value.cells
  | .declare _ _ _ _ (some value) _ => value.cells
  | .declare _ _ _ _ none _ => []
  | .call _ _ _ arguments => arguments.flatMap Expr.cells
  | .give _ value => value.cells
  | .comment _ _ _ _ | .blank | .line _ => []

/-- Replaces locations by the slots that hold them. -/
def place (slotOf : String → Option Int → Option String) : Step α → Step α
  | .assign indent target form value =>
    .assign indent (target.place slotOf) form (value.place slotOf)
  | .declare indent type names size value ending =>
    .declare indent type names size (value.map (·.place slotOf)) ending
  | .call indent function spaced arguments =>
    .call indent function spaced (arguments.map (·.place slotOf))
  | .give indent value => .give indent (value.place slotOf)
  | s => s

end Step

end Kinetics.Code
