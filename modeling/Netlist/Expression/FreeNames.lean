import Netlist.Expression.Machine
import Netlist.Expression.Scope

/-!
The names an expression refers to, found by a scan that takes every value for zero. The texts of
arguments are scanned too, for functions may evaluate them; those that are no expressions are
passed over.
-/
namespace Netlist

/-- Names of parameters and functions with ASCII letters in lower case, each in increasing order
and without repetitions. -/
structure FreeNames where
  parameters : List Text := []
  functions : List Text := []
  deriving DecidableEq, Repr

def insertSorted (t : Text) : List Text → List Text
  | [] => [t]
  | u :: rest => if t = u then u :: rest else if before t u then t :: u :: rest else u :: insertSorted t rest

namespace FreeNames

/-- With the name of a parameter. -/
def addParameter (names : FreeNames) (name : Text) : FreeNames :=
  { names with parameters := insertSorted (asciiLower name) names.parameters }

/-- With the name of a function. -/
def addFunction (names : FreeNames) (name : Text) : FreeNames :=
  { names with functions := insertSorted (asciiLower name) names.functions }

def scanAll (scan : Text → Eval FreeNames Float) : List Text → Eval FreeNames Unit
  | [] => return
  | t :: rest => do
    let _ ← (scan t).attempt
    scanAll scan rest

/-- The resolver that takes down names; `scan` scans the text of an argument. -/
def recorder (scope : Scope) (scan : Text → Eval FreeNames Float) : Resolver FreeNames where
  parameter name _ := do
    modify (·.addParameter name)
    return 0
  function? := scope.function?
  operators := scope.operators
  call f arguments := do
    modify (·.addFunction f.name)
    match arguments with
    | .values _ => return 0
    | .raw ts => do
      scanAll scan ts
      return 0
  unknown name _ := do
    modify (·.addFunction name)
    return 0
  note name := modify (·.addFunction name)

/-- The scan with a bound on how deep arguments are nested. -/
def scanWithin (scope : Scope) : Nat → Text → Eval FreeNames Float
  | 0, _ => throw .exhausted
  | depth + 1, t => Machine.run (recorder scope (scanWithin scope depth)) t

end FreeNames

/-- The names that a text refers to in a scope. The text of an argument is shorter than the text
it comes from, so the length bounds the nesting. -/
def Scope.freeNames (scope : Scope) (t : Text) : Except Fault FreeNames :=
  match FreeNames.scanWithin scope (t.length + 1) t {} with
  | (.ok _, names) => .ok names
  | (.error fault, _) => .error fault

end Netlist
