import Kinetics.Code.Language
import Kinetics.Code.Step
import Kinetics.Scalar
/-!
# The text of emitted code

A `Pen` writes text and knows how long the current line is, because some long lines are broken
where they pass a margin.
-/

namespace Kinetics

class Written (α : Type) where
  text : NumberFormat → α → String

namespace Code

structure Pen where
  text : String := ""
  column : Nat := 0
  deriving Inhabited

def margin : Nat := 70

namespace Pen

def write (p : Pen) (s : String) : Pen := ⟨p.text ++ s, p.column + s.length⟩

def blanks (p : Pen) (n : Nat) : Pen :=
  if n = 0 then p else p.write (String.ofList (List.replicate n ' '))

def feed (p : Pen) : Pen := ⟨p.text ++ "\n", 0⟩

def finish (p : Pen) (s : String) : Pen := ⟨p.text ++ s, 0⟩

def breakLine (p : Pen) (l : Language) : Break → Pen
  | .none => p
  | .past indent => if margin < p.column then p.feed.blanks indent else p
  | .always indent marked =>
    ((if marked && l == .fortran then p.write " &" else p).feed).blanks indent

end Pen

variable {α : Type} [Written α]

def Expr.render (l : Language) : Expr α → Pen → Pen
  | .number format x, p => p.write (Written.text format x)
  | .constant d, p => p.write d.text
  | .element array none, p => p.write array
  | .element array (some index), p => p.write (l.element array index)
  | .pointee pointer true, p => ((p.write "(*").write pointer).write ")"
  | .pointee pointer false, p => (p.write "*").write pointer
  | .firstColumn matrix row, p => p.write (l.entry matrix row 0)
  | .named array index, p => ((p.write array).write "[").write index |>.write "]"
  | .slot label, p => p.write label
  | .address e, p => e.render l (p.write "&")
  | .negate after e, p => e.render l ((p.write "-").blanks after)
  | .binary op gap a b, p =>
    let p := (a.render l p).breakLine l gap.breakBefore
    let p := (p.blanks gap.before).write op.sign
    b.render l ((p.blanks gap.after).breakLine l gap.breakAfter)
  | .apply f inner x, p => (x.render l (((p.write f).write "(").blanks inner)).write ")"
  | .apply2 f x y, p =>
    (y.render l ((x.render l ((p.write f).write "(")).write ", ")).write ")"
  | .tenPower x, p => (x.render l (p.write l.tenPowerStart)).write ")"
  | .group e, p => (e.render l (p.write "(")).write ")"
  | .opened e, p => e.render l (p.write "(")
  | .padded before after e, p => (e.render l (p.blanks before)).blanks after
  | .beside a b, p => b.render l (a.render l p)
  | .hole, p => p

def Expr.text (l : Language) (e : Expr α) : String := (e.render l {}).text

def renderArguments (l : Language) : List (Expr α) → Pen → Pen
  | [], p => p
  | [e], p => e.render l p
  | e :: es, p => renderArguments l es ((e.render l p).write ", ")

def Form.render (l : Language) (target : Expr α) : Form → Pen → Pen
  | .set, p => p.write " = "
  | .setTight, p => p.write "= "
  | .add, p => p.write " += "
  | .subtract, p => p.write " -= "
  | .multiply, p => p.write " *= "
  | .accumulate, p =>
    if l.isBraced then p.write " += " else (target.render l (p.write " = ")).write " + "

def Ending.render (l : Language) : Ending → Pen → Pen
  | .native, p => p.finish l.statementEnd
  | .semicolon, p => p.finish ";\n"
  | .joined, p => p.write ";"

def Step.render (l : Language) : Step α → Pen → Pen
  | .assign indent target form value, p =>
    (value.render l (form.render l target (target.render l (p.blanks indent)))).finish l.statementEnd
  | .declare indent type names size value ending, p =>
    let p := ((p.blanks indent).write type).write " "
    let p := p.write (String.intercalate ", " names)
    let p := match size with
      | some n => ((p.write "[").write (toString n)).write "]"
      | none => p
    let p := match value with
      | some e => e.render l (p.write " = ")
      | none => p
    ending.render l p
  | .call indent function spaced arguments, p =>
    let p := (p.blanks indent).write function
    let p := p.write (if spaced then " (" else "(")
    ((renderArguments l arguments p).write ")").finish l.statementEnd
  | .give indent value, p =>
    (value.render l ((p.blanks indent).write "return ")).finish ";\n"
  | .comment indent mark text ended, p =>
    let p := (p.blanks indent).write (match mark with
      | .native => l.commentMark
      | .slashes => "//")
    let p := p.write text
    if ended then p.finish l.statementEnd else p.feed
  | .blank, p => p.feed
  | .line text, p => p.finish text

def Condition.render : Condition α → Pen → Pen
  | .atMost quantity format bound, p =>
    (((p.write "(").write quantity).write " <= ").write (Written.text format bound) |>.write ")"
  | .above quantity format bound, p =>
    (((p.write "(").write quantity).write " > ").write (Written.text format bound) |>.write ")"
  | .between quantity format lower upper, p =>
    let p := (((p.write "((").write quantity).write " > ").write (Written.text format lower)
    let p := ((p.write ") && (").write quantity).write " <= "
    (p.write (Written.text format upper)).write "))"

def renderSteps (l : Language) (steps : List (Step α)) (p : Pen) : Pen :=
  steps.foldl (fun p s => s.render l p) p

def renderArms (l : Language) (indent : Nat) (arms : List (Condition α × List (Step α)))
    (p : Pen) : Pen :=
  arms.foldl (fun p (condition, steps) =>
    let p := condition.render ((p.blanks indent).write "\x7d else if ")
    renderSteps l steps (p.finish " \x7b\n")) p

def Item.render (l : Language) : Item α → Pen → Pen
  | .step s, p => s.render l p
  | .split indent condition below above, p =>
    let p := condition.render ((p.blanks indent).write "if ")
    let p := renderSteps l below (p.finish (match l with
      | .c | .cuda => " \x7b\n"
      | .fortran => " then\n"
      | .matlab => "\n"))
    let p := (p.blanks indent).finish (if l.isBraced then "\x7d else \x7b\n" else "else\n")
    let p := (renderSteps l above p).blanks indent
    p.finish (match l with
      | .c | .cuda => "\x7d\n\n"
      | .fortran => "end if\n\n"
      | .matlab => "end\n\n")
  | .choice _ [] _, p => p
  | .choice indent ((condition, steps) :: arms) closed, p =>
    let p := condition.render ((p.blanks indent).write "if ")
    let p := renderSteps l steps (p.finish " \x7b\n")
    let p := renderArms l indent arms p
    if closed then (p.blanks indent).finish "\x7d\n" else p
  | .load _, p | .release _, p | .consult _, p => p

def renderItems (l : Language) (items : List (Item α)) (p : Pen) : Pen :=
  items.foldl (fun p i => i.render l p) p

def itemsText (l : Language) (items : List (Item α)) : String := (renderItems l items {}).text

end Code

instance : Written Scalar where
  text := Scalar.text

end Kinetics
