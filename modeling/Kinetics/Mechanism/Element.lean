import Kinetics.Arithmetic
/-!
# Elements

Atomic weights by element symbol in lower case. A mechanism can change them and add others, so a
table of weights is a value and not a constant.
-/

namespace Kinetics

def standardWeights : List (String × Decimal) :=
  [("h", ⟨100794, 5, 0⟩), ("he", ⟨400260, 5, 0⟩), ("li", ⟨693900, 5, 0⟩), ("be", ⟨901220, 5, 0⟩),
    ("b", ⟨1081100, 5, 0⟩), ("c", ⟨120110, 4, 0⟩), ("n", ⟨1400674, 5, 0⟩), ("o", ⟨1599940, 5, 0⟩),
    ("f", ⟨1899840, 5, 0⟩), ("ne", ⟨2018300, 5, 0⟩), ("na", ⟨2298980, 5, 0⟩),
    ("mg", ⟨2431200, 5, 0⟩), ("al", ⟨2698150, 5, 0⟩), ("si", ⟨2808600, 5, 0⟩),
    ("p", ⟨3097380, 5, 0⟩), ("s", ⟨3206400, 5, 0⟩), ("cl", ⟨3545300, 5, 0⟩),
    ("ar", ⟨3994800, 5, 0⟩), ("k", ⟨3910200, 5, 0⟩), ("ca", ⟨4008000, 5, 0⟩),
    ("sc", ⟨4495600, 5, 0⟩), ("ti", ⟨4790000, 5, 0⟩), ("v", ⟨5094200, 5, 0⟩),
    ("cr", ⟨5199600, 5, 0⟩), ("mn", ⟨5493800, 5, 0⟩), ("fe", ⟨5584700, 5, 0⟩),
    ("co", ⟨5893320, 5, 0⟩), ("ni", ⟨5871000, 5, 0⟩), ("cu", ⟨6354000, 5, 0⟩),
    ("zn", ⟨6537000, 5, 0⟩), ("ga", ⟨6972000, 5, 0⟩), ("ge", ⟨7259000, 5, 0⟩),
    ("as", ⟨7492160, 5, 0⟩), ("se", ⟨7896000, 5, 0⟩), ("br", ⟨7990090, 5, 0⟩),
    ("kr", ⟨8380000, 5, 0⟩), ("rb", ⟨8547000, 5, 0⟩), ("sr", ⟨8762000, 5, 0⟩),
    ("y", ⟨8890500, 5, 0⟩), ("zr", ⟨9122000, 5, 0⟩), ("nb", ⟨9290600, 5, 0⟩),
    ("mo", ⟨9594000, 5, 0⟩), ("tc", ⟨9900000, 5, 0⟩), ("ru", ⟨10107000, 5, 0⟩),
    ("rh", ⟨10290500, 5, 0⟩), ("pd", ⟨10640000, 5, 0⟩), ("ag", ⟨10787000, 5, 0⟩),
    ("cd", ⟨11240000, 5, 0⟩), ("in", ⟨11482000, 5, 0⟩), ("sn", ⟨11869000, 5, 0⟩),
    ("sb", ⟨12175000, 5, 0⟩), ("te", ⟨12760000, 5, 0⟩), ("i", ⟨12690440, 5, 0⟩),
    ("xe", ⟨13130000, 5, 0⟩), ("cs", ⟨13290500, 5, 0⟩), ("ba", ⟨13734000, 5, 0⟩),
    ("la", ⟨13891000, 5, 0⟩), ("ce", ⟨14012000, 5, 0⟩), ("pr", ⟨14090700, 5, 0⟩),
    ("nd", ⟨14424000, 5, 0⟩), ("pm", ⟨14500000, 5, 0⟩), ("sm", ⟨15035000, 5, 0⟩),
    ("eu", ⟨15196000, 5, 0⟩), ("gd", ⟨15725000, 5, 0⟩), ("tb", ⟨15892400, 5, 0⟩),
    ("dy", ⟨16250000, 5, 0⟩), ("ho", ⟨16493000, 5, 0⟩), ("er", ⟨16726000, 5, 0⟩),
    ("tm", ⟨16893400, 5, 0⟩), ("yb", ⟨17304000, 5, 0⟩), ("lu", ⟨17499700, 5, 0⟩),
    ("hf", ⟨17849000, 5, 0⟩), ("ta", ⟨18094800, 5, 0⟩), ("w", ⟨18385000, 5, 0⟩),
    ("re", ⟨18620000, 5, 0⟩), ("os", ⟨19020000, 5, 0⟩), ("ir", ⟨19220000, 5, 0⟩),
    ("pt", ⟨19509000, 5, 0⟩), ("au", ⟨19696700, 5, 0⟩), ("hg", ⟨20059000, 5, 0⟩),
    ("tl", ⟨20437000, 5, 0⟩), ("pb", ⟨20719000, 5, 0⟩), ("bi", ⟨20898000, 5, 0⟩),
    ("po", ⟨21000000, 5, 0⟩), ("at", ⟨21000000, 5, 0⟩), ("rn", ⟨22200000, 5, 0⟩),
    ("fr", ⟨22300000, 5, 0⟩), ("ra", ⟨22600000, 5, 0⟩), ("ac", ⟨22700000, 5, 0⟩),
    ("th", ⟨23203800, 5, 0⟩), ("pa", ⟨23100000, 5, 0⟩), ("u", ⟨23803000, 5, 0⟩),
    ("np", ⟨23700000, 5, 0⟩), ("pu", ⟨24200000, 5, 0⟩), ("am", ⟨24300000, 5, 0⟩),
    ("cm", ⟨24700000, 5, 0⟩), ("bk", ⟨24900000, 5, 0⟩), ("cf", ⟨25100000, 5, 0⟩),
    ("es", ⟨25400000, 5, 0⟩), ("fm", ⟨25300000, 5, 0⟩), ("d", ⟨201410, 5, 0⟩),
    ("e", ⟨548578, 5, -4⟩)]

abbrev Weights (α : Type) := List (String × α)

namespace Weights

variable {α : Type}

def standard [Arithmetic α] : Weights α :=
  standardWeights.map fun (name, weight) => (name, Arithmetic.ofDecimal weight)

def get? (w : Weights α) (name : String) : Option α := w.lookup name

def insert (w : Weights α) (name : String) (weight : α) : Weights α :=
  if w.any (·.1 == name) then w.map fun e => if e.1 == name then (name, weight) else e
  else w ++ [(name, weight)]

def changedFrom [Arithmetic α] (w base : Weights α) : Weights α :=
  w.filter fun (name, weight) =>
    match base.get? name with
    | some x => !Arithmetic.eq weight x
    | none => true

end Weights

end Kinetics
