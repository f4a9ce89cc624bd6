import Kinetics.Mechanism.Element
import Kinetics.Scalar
/-!
# Reading sessions

What reading input leaves behind even if it fails: the table of atomic weights, remarks in the
log, and text for the user.
-/

namespace Kinetics.Reading

inductive Level where
  | warning
  | error
  deriving Repr, DecidableEq, Inhabited

structure Session where
  weights : Weights Scalar := Weights.standard
  log : List (Level × String) := []
  said : String := ""
  deriving Inhabited

abbrev Reader (β : Type) := ExceptT Fault (StateM Session) β

def say (text : String) : Reader Unit :=
  modify fun s => { s with said := s.said ++ text }

def remark (level : Level) (text : String) : Reader Unit :=
  modify fun s => { s with log := s.log ++ [(level, text)] }

def setWeight (name : String) (weight : Scalar) : Reader Unit :=
  modify fun s => { s with weights := s.weights.insert name weight }

def quit {β : Type} (text : String) (status : Int) : Reader β :=
  throw (.halt text (some status))

def Reader.start {β : Type} (r : Reader β) (s : Session) : Except Fault β × Session :=
  StateT.run (ExceptT.run r) s

end Kinetics.Reading
