import Kinetics.Number.Numeral
/-!
# Options

A command takes options, each with a short and a long name. Names can be abbreviated as long as
only one option is meant, a value can follow its option as the next word, after an equals sign or,
for names of one letter, at once. The last value given for an option counts.
-/

namespace Kinetics.CommandLine

/-! ## Tables of options -/

inductive Kind where
  | flag
  | text (choices : List String)
  | whole
  | help
  deriving Repr, DecidableEq, Inhabited

structure Switch where
  short : String
  long : String
  kind : Kind
  required : Bool := false
  deriving Repr, DecidableEq, Inhabited

def Switch.takesValue (o : Switch) : Bool := o.kind != .flag && o.kind != .help

def helpSwitch : Switch := ⟨"-h", "--help", .help, false⟩

def namesOf (table : List Switch) : List (String × Switch) :=
  (helpSwitch :: table).flatMap fun o => [(o.short, o), (o.long, o)]

def lookupName (table : List Switch) (name : List Char) : Option Switch :=
  (namesOf table).lookup (String.ofList name)

inductive Misuse where
  /-- Not a mistake: the user wants to know how the command is used. -/
  | help
  | ambiguous (word : String)
  | missingValue (name : String)
  | unexpectedValue (word : String)
  | invalidValue (name value : String)
  /-- A value that separates options from other words and is taken for nothing. -/
  | emptyValue (name : String)
  | missingOption (name : String)
  | unrecognized
  deriving Repr, DecidableEq, Inhabited

def Misuse.fault : Misuse → Fault
  | .help => .halt "" (some 0)
  | .emptyValue _ => .sizeMismatch
  | _ => .halt "" (some 2)

/-! ## Words -/

inductive Word where
  | plain (text : String)
  /-- An option by a name, with a value in the same word. -/
  | option (o : Switch) (name : List Char) (value : Option (List Char))
  | unknown
  | separator
  deriving Repr, Inhabited

def areDigits (s : List Char) : Bool := s.all fun c => (Text.digitValue? c).isSome

def isNegativeNumber : List Char → Bool
  | '-' :: rest =>
    let body := if rest.getLast? == some '\n' then rest.dropLast else rest
    match Text.splitAtChar '.' body with
    | [whole] => areDigits whole && !whole.isEmpty
    | [whole, fraction] => areDigits whole && areDigits fraction && !fraction.isEmpty
    | _ => false
  | _ => false

def splitEquals (s : List Char) : Option (List Char × List Char) :=
  match s.dropWhile (· != '=') with
  | [] => none
  | _ :: value => some (s.takeWhile (· != '='), value)

def candidates (table : List Switch) (word : List Char) :
    List (Switch × List Char × Option (List Char)) :=
  match word with
  | '-' :: '-' :: _ =>
    let (start, value) := match splitEquals word with
      | some (start, value) => (start, some value)
      | none => (word, none)
    (namesOf table).filterMap fun (name, o) =>
      if Text.startsWith start name.toList then some (o, name.toList, value) else none
  | '-' :: c :: rest =>
    (namesOf table).filterMap fun (name, o) =>
      if name.toList == ['-', c] then some (o, name.toList, some rest)
      else if Text.startsWith word name.toList then some (o, name.toList, none)
      else none
  | _ => []

def abbreviated (table : List Switch) (word : List Char) : Except Misuse Word :=
  match candidates table word with
  | [(o, name, value)] => .ok (.option o name value)
  | _ :: _ :: _ => .error (.ambiguous (String.ofList word))
  | [] =>
    if isNegativeNumber word || word.contains ' ' then .ok (.plain (String.ofList word))
    else .ok .unknown

def classify (table : List Switch) (text : String) : Except Misuse Word :=
  match text.toList with
  | '-' :: c :: rest =>
    let word := '-' :: c :: rest
    match lookupName table word with
    | some o => .ok (.option o word none)
    | none =>
      match splitEquals word with
      | some (name, value) =>
        match lookupName table name with
        | some o => .ok (.option o name (some value))
        | none => abbreviated table word
      | none => abbreviated table word
  | _ => .ok (.plain text)

def classifyAll (table : List Switch) : List String → Except Misuse (List Word)
  | [] => .ok []
  | "--" :: rest => .ok (.separator :: rest.map .plain)
  | text :: rest => do
    let word ← classify table text
    return word :: (← classifyAll table rest)

/-! ## Values -/

inductive Setting where
  | set
  | text (s : String)
  | whole (n : Int)
  deriving Repr, DecidableEq, Inhabited

structure Arguments where
  values : List (String × Setting) := []
  stray : Bool := false
  deriving Repr, Inhabited

namespace Arguments

def add (a : Arguments) (o : Switch) (s : Setting) : Arguments :=
  { a with values := (o.long, s) :: a.values }

def has (a : Arguments) (name : String) : Bool := (a.values.lookup name).isSome

def text? (a : Arguments) (name : String) : Option String :=
  match a.values.lookup name with
  | some (.text s) => some s
  | _ => none

def text (a : Arguments) (name : String) : String := (a.text? name).getD ""

def whole? (a : Arguments) (name : String) : Option Int :=
  match a.values.lookup name with
  | some (.whole n) => some n
  | _ => none

end Arguments

def Switch.accept (o : Switch) (value : String) : Except Misuse Setting :=
  match o.kind with
  | .help => .error .help
  | .flag => .ok .set
  | .text choices =>
    if choices.isEmpty || choices.contains value then .ok (.text value)
    else .error (.invalidValue o.long value)
  | .whole =>
    match Number.readWhole value.toList with
    | .ok n => .ok (.whole n)
    | .error _ => .error (.invalidValue o.long value)

/-- Resolves a word that holds an option and more text. After an option without value the text
can continue with the letter of another one. Gives the options without value, then the last one
with its value in the word. -/
def chain (table : List Switch) (o : Switch) (name : List Char) :
    List Char → Except Misuse (List Switch × Switch × Option (List Char))
  | [] => if o.takesValue then .ok ([], o, some []) else .error (.unexpectedValue (String.ofList name))
  | c :: rest =>
    if o.takesValue then .ok ([], o, some (c :: rest))
    else if Text.startsWith ['-', '-'] name then
      .error (.unexpectedValue (String.ofList (c :: rest)))
    else match lookupName table ['-', c] with
      | none => .error (.unexpectedValue (String.ofList (c :: rest)))
      | some next =>
        if rest.isEmpty then .ok ([o], next, none)
        else do
          let (flags, last) ← chain table next ['-', c] rest
          return (o :: flags, last)

def addAll (a : Arguments) (flags : List Switch) (last : Switch) (value : String) :
    Except Misuse Arguments := do
  let a ← flags.foldlM (fun (a : Arguments) o => return a.add o (← o.accept "")) a
  return a.add last (← last.accept value)

def collect (table : List Switch) (a : Arguments) : List Word → Except Misuse Arguments
  | [] => .ok a
  | .plain _ :: rest | .unknown :: rest | .separator :: rest =>
    collect table { a with stray := true } rest
  | .option o name value :: rest => do
    let (flags, last, value) ← match value with
      | none => pure ([], o, none)
      | some text => chain table o name text
    match value with
    | some text =>
      if text == ['-', '-'] then throw (.emptyValue last.long)
      collect table (← addAll a flags last (String.ofList text)) rest
    | none =>
      if last.takesValue then
        match rest with
        | .plain text :: rest => collect table (← addAll a flags last text) rest
        | _ => throw (.missingValue last.long)
      else collect table (← addAll a flags last "") rest

def parse (table : List Switch) (words : List String) : Except Misuse Arguments := do
  let a ← collect table {} (← classifyAll table words)
  if let some o := table.find? fun o => o.required && !a.has o.long then
    throw (.missingOption o.long)
  if a.stray then throw .unrecognized
  return a

end Kinetics.CommandLine
