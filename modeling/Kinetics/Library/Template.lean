import Kinetics.Fault
import Kinetics.Text.Slice
/-!
# Templates

Text with placeholders: a dollar sign and a name, with or without braces around it. Two dollar
signs stand for one. What is no placeholder, or has a name without value, stays as it is.
-/

namespace Kinetics.Library.Template

def startsName (c : Char) : Bool := c == '_' || c.isAlpha

def inName (c : Char) : Bool := startsName c || c.isDigit

def takeName : List Char → List Char
  | [] => []
  | c :: rest => if startsName c then c :: rest.takeWhile inName else []

/-- A placeholder at the start of a text that follows a dollar sign: its name, and how many
characters it takes. -/
def placeholder : List Char → Option (List Char × Nat)
  | '\x7b' :: rest =>
    let name := takeName rest
    if !name.isEmpty && (rest.drop name.length).head? == some '\x7d' then
      some (name, name.length + 2)
    else none
  | s =>
    let name := takeName s
    if name.isEmpty then none else some (name, name.length)

/-- Fills in values; the first `skip` characters belong to a placeholder that was filled in. -/
def fillFrom (value : List Char → Option (List Char)) : (skip : Nat) → List Char → List Char
  | _, [] => []
  | skip + 1, _ :: rest => fillFrom value skip rest
  | 0, c :: rest =>
    if c == '$' then
      if rest.head? == some '$' then '$' :: fillFrom value 1 rest
      else
        match placeholder rest with
        | none => '$' :: fillFrom value 0 rest
        | some (name, length) =>
          match value name with
          | some text => text ++ fillFrom value length rest
          | none => '$' :: fillFrom value 0 rest
    else c :: fillFrom value 0 rest

def fill (values : List (String × String)) (template : String) : String :=
  String.ofList (fillFrom (fun name => (values.lookup (String.ofList name)).map String.toList) 0
    template.toList)

end Kinetics.Library.Template
