import Netlist.Text.Basic

/-!
Numeric dialects. Simulators disagree on how powers, roots and logarithms treat negative
arguments; the dialect of a scope selects the behaviour of its function library.
-/
namespace Netlist

/-- The numeric semantics of a simulator: real-valued mathematics, which is the default; complex
evaluation with results near zero snapped to it; magnitudes of negative arguments; integer
exponents and roots that keep the sign. -/
inductive Dialect where
  | spice3f5
  | ltspice
  | smartspice
  | hspice
  deriving DecidableEq, Repr

namespace Dialect

def all : List Dialect := [.spice3f5, .ltspice, .smartspice, .hspice]

def name : Dialect → Text
  | .spice3f5 => chars "spice3f5"
  | .ltspice => chars "ltspice"
  | .smartspice => chars "smartspice"
  | .hspice => chars "hspice"

def aliases : Dialect → List Text
  | .spice3f5 => [chars "spice3", chars "spice", chars "default"]
  | .ltspice => [chars "lt"]
  | .smartspice => [chars "smart"]
  | .hspice => [chars "h"]

def ofName? (t : Text) : Option Dialect := all.find? (·.name == t)

/-- The dialect with this name or alias, in any letter case. No name has a letter that is the
lower case of a character outside ASCII, so ASCII case suffices. -/
def parse? (t : Text) : Option Dialect :=
  all.find? fun d => (d.name :: d.aliases).contains (asciiLower t)

def parseMessage : String := "error parsing simulator dialect"

end Dialect

end Netlist
