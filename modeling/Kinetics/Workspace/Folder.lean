import Kinetics.Fault
import Kinetics.Workspace.Path
/-!
# Folders

The files and folders below one folder, in order of creation. A place is given by the names from
the folder down to it, and the empty list is the folder itself.
-/

namespace Kinetics.Workspace

abbrev Place := List String

inductive Entry where
  | folder
  | file (text : String)
  deriving Repr, DecidableEq, Inhabited

structure Folder where
  entries : List (Place × Entry) := []
  deriving Repr, Inhabited

namespace Folder

def entry? (f : Folder) (p : Place) : Option Entry :=
  if p.isEmpty then some .folder else f.entries.lookup p

def text? (f : Folder) (p : Place) : Option String :=
  match f.entry? p with
  | some (.file t) => some t
  | _ => none

def insert (f : Folder) (p : Place) (e : Entry) : Folder :=
  if f.entries.any (·.1 == p) then
    { entries := f.entries.map fun x => if x.1 == p then (p, e) else x }
  else { entries := f.entries ++ [(p, e)] }

def erase (f : Folder) (p : Place) : Folder :=
  { entries := f.entries.filter (·.1 != p) }

def files (f : Folder) : List (Place × String) :=
  f.entries.filterMap fun (p, e) =>
    match e with
    | .file t => some (p, t)
    | .folder => none

def folders (f : Folder) : List Place :=
  [] :: f.entries.filterMap fun (p, e) => if e = .folder then some p else none

def names (f : Folder) (p : Place) : List String :=
  f.entries.filterMap fun (q, _) => if q.dropLast == p && q != [] then q.getLast? else none

def maxNameLength : Nat := 255

def walk (f : Folder) : Place → List String → Except Fault Place
  | p, [] => .ok p
  | p, part :: rest =>
    match f.entry? p with
    | none => .error .noSuchFile
    | some (.file _) => .error .notADirectory
    | some .folder =>
      if part == "" || part == "." then f.walk p rest
      else if part == ".." then f.walk p.dropLast rest
      else if maxNameLength < part.utf8ByteSize then .error .nameTooLong
      else f.walk (p ++ [part]) rest

def checkPath (path : String) : Except Fault Unit :=
  if path.isEmpty then .error .noSuchFile
  else if path.toList.contains '\x00' then .error .unacceptable
  else .ok ()

/-- The place of a path that leads from the top folder `here`; it is inside if it is relative or
starts with `here`. -/
def innerParts (here path : String) : Except Fault (List String) :=
  if path == here then .ok []
  else if Text.startsWith (here ++ "/").toList path.toList then
    .ok (Path.parts (String.ofList (path.toList.drop (here.length + 1))))
  else if Path.isAbsolute path then .error .noSuchFile
  else .ok (Path.parts path)

def locate (f : Folder) (here path : String) : Except Fault Place := do
  checkPath path
  f.walk [] (← innerParts here path)

def find? (f : Folder) (here path : String) : Option Entry :=
  match f.locate here path with
  | .ok p => f.entry? p
  | .error _ => none

def holds (f : Folder) (here path : String) : Bool := (f.find? here path).isSome

def read (f : Folder) (here path : String) : Except Fault String := do
  match f.entry? (← f.locate here path) with
  | some (.file t) => return t
  | some .folder => throw .isADirectory
  | none => throw .noSuchFile

def write (f : Folder) (here path text : String) : Except Fault Folder := do
  let p ← f.locate here path
  match f.entry? p with
  | some .folder => throw .isADirectory
  | _ => return f.insert p (.file text)

def remove (f : Folder) (here path : String) : Except Fault Folder := do
  let p ← f.locate here path
  match f.entry? p with
  | some (.file _) => return f.erase p
  | some .folder => throw .isADirectory
  | none => throw .noSuchFile

/-- Follows the parts of a path and creates the folders that are missing. A file at the end of the
path is left as it is. -/
def makeAlong (f : Folder) : Place → List String → Except Fault Folder
  | p, [] =>
    match f.entry? p with
    | some _ => .ok f
    | none => .ok (f.insert p .folder)
  | p, part :: rest =>
    let f := if (f.entry? p).isNone then f.insert p .folder else f
    if part == "" || part == "." then f.makeAlong p rest
    else if f.entry? p ≠ some .folder then .error .notADirectory
    else if part == ".." then f.makeAlong p.dropLast rest
    else if maxNameLength < part.utf8ByteSize then .error .nameTooLong
    else f.makeAlong (p ++ [part]) rest

def make (f : Folder) (here path : String) : Except Fault Folder := do
  checkPath path
  f.makeAlong [] (← innerParts here path)

def place (f : Folder) (path text : String) : Folder :=
  let parts := (Path.parts path).filter fun p => p != "" && p != "."
  let above := (List.range parts.length).filterMap fun n =>
    let p := parts.take n
    if (f.entry? p).isNone then some p else none
  (above.foldl (fun f p => f.insert p .folder) f).insert parts (.file text)

end Folder

end Kinetics.Workspace
