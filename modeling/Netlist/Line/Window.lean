import Netlist.Line.Continuation

/-!
The part of the remaining text that a lexer offers to its rules at one position.
-/
namespace Netlist

/-- How far rules may look: to the end of the physical line, of the logical line, or of the text. -/
inductive Window where
  | line
  | logical
  | full
  deriving DecidableEq, Repr

namespace Window

def name : Window → String
  | .line => "line"
  | .logical => "logical"
  | .full => "full"

def ofName? (name : Text) : Option Window :=
  if name == chars "line" then some .line
  else if name == chars "logical" then some .logical
  else if name == chars "full" then some .full
  else none

/-- The visible part of the remaining text; it is a beginning of it. -/
def view (k : Continuation) (rest : Text) : Window → Text
  | .line => (firstLine rest).whole
  | .logical => Continuation.source (k.firstRun rest)
  | .full => rest

end Window

end Netlist
