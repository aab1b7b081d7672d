import Netlist.Expression.Scope
import Netlist.Library.Choice
import Netlist.Library.Polynomial
import Netlist.Library.Statistics
import Netlist.Library.Table

/-!
The function library that scopes start with.
-/
namespace Netlist

/-- The functions of a dialect, in the order in which they are defined. -/
def Library.functions (d : Dialect) : List Function :=
  Library.powers d ++ Library.choices ++ Library.statistics ++ [Library.tableFunction, Library.polynomialFunction]

def Scope.standard (d : Dialect) : Scope := (Library.functions d).foldl Scope.define (Scope.empty d)

end Netlist
