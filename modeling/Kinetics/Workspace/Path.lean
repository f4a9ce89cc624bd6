import Kinetics.Text.Slice
/-!
# Paths

Operations on the text of paths. None of them looks at the files themselves.
-/

namespace Kinetics.Path

def parts (p : String) : List String := (Text.splitAtChar '/' p.toList).map String.ofList

def isAbsolute (p : String) : Bool := p.toList.head? == some '/'

def join (p q : String) : String :=
  if isAbsolute q then q
  else if p.isEmpty || p.toList.getLast? == some '/' then p ++ q
  else p ++ "/" ++ q

def base (p : String) : String := (parts p).getLast?.getD ""

def folder (p : String) : String :=
  let head := (p.toList.reverse.dropWhile (· != '/')).reverse
  if head.all (· == '/') then String.ofList head
  else String.ofList (head.reverse.dropWhile (· == '/')).reverse

/-- Adds a part to a path that is being simplified: empty parts and single points are skipped, and
two points take the part before them away. -/
def addPart (absolute : Bool) (done : List String) (part : String) : List String :=
  if part == "" || part == "." then done
  else if part != ".." then done ++ [part]
  else
    match done.getLast? with
    | none => if absolute then [] else [part]
    | some last => if last == ".." then done ++ [part] else done.dropLast

/-- The separators that a simplified path starts with; two are kept, any other number counts as
one. -/
def rootMark (p : String) : String :=
  match p.toList.takeWhile (· == '/') with
  | [] => ""
  | ['/', '/'] => "//"
  | _ => "/"

def simplify (p : String) : String :=
  let text := rootMark p
    ++ String.intercalate "/" ((parts p).foldl (addPart (isAbsolute p)) [])
  if text.isEmpty then "." else text

def absolute (here p : String) : String :=
  if isAbsolute p then simplify p else simplify (join here p)

end Kinetics.Path
