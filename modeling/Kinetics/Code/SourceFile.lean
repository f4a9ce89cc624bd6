import Kinetics.Code.Render
/-!
# Source files

A source file is a sequence of parts: fixed text, prototypes, and functions with a body of
statements.
-/

namespace Kinetics.Code

structure Param where
  type : String
  name : String
  deriving Repr, DecidableEq, Inhabited

/-- The head of a function: a mark in front, the type of its result, its name and its
parameters. -/
structure Signature where
  mark : String := ""
  result : String := "void"
  name : String
  spaced : Bool := true
  params : List Param
  deriving Repr, DecidableEq, Inhabited

namespace Signature

def opening (s : Signature) : String :=
  s.mark ++ s.result ++ " " ++ s.name ++ (if s.spaced then " (" else "(")

def prototype (s : Signature) : String :=
  s.opening ++ String.intercalate ", " (s.params.map (·.type)) ++ ");\n"

def definition (s : Signature) : String :=
  s.opening ++ String.intercalate ", " (s.params.map fun p => p.type ++ " " ++ p.name) ++ ") \x7b\n"

end Signature

inductive FilePart (α : Type) where
  | text (s : String)
  | prototype (s : Signature)
  | function (head : Signature) (body : List (Item α)) (closing : String)
  /-- A function with its head and end written in the words of another language. -/
  | routine (opening : String) (body : List (Item α)) (closing : String)
  deriving Inhabited

variable {α : Type} [Written α]

def FilePart.render (l : Language) : FilePart α → Pen → Pen
  | .text s, p => p.finish s
  | .prototype s, p => p.finish s.prototype
  | .function head body closing, p =>
    (renderItems l body (p.finish head.definition)).finish closing
  | .routine opening body closing, p =>
    (renderItems l body (p.finish opening)).finish closing

structure SourceFile (α : Type) where
  path : String
  language : Language
  parts : List (FilePart α)
  deriving Inhabited

def SourceFile.text (f : SourceFile α) : String :=
  (f.parts.foldl (fun p (part : FilePart α) => part.render f.language p) {}).text

def lineCount (s : String) : Nat :=
  let cs := s.toList
  let feeds := cs.countP (· == '\n')
  match cs.getLast? with
  | none => 0
  | some c => if c = '\n' then feeds else feeds + 1

end Kinetics.Code
