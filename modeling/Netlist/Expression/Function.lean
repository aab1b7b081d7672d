import Netlist.Expression.Program
import Netlist.Text.Quoted

/-!
Functions: a name, the number of arguments, a body over values or over the texts of the
arguments, and possibly derivatives. A function that is an operator is written between its two
arguments.
-/
namespace Netlist

inductive Arity where
  | fixed (n : Nat)
  | atLeast (n : Nat)
  | variadic
  deriving DecidableEq, Repr

namespace Arity

def accepts : Arity → Nat → Bool
  | fixed n, count => count == n
  | atLeast n, count => decide (n ≤ count)
  | variadic, _ => true

/-- The arity in words, as error messages have it. -/
def render : Arity → Text
  | fixed n => Nat.toDigits 10 n
  | atLeast n => chars "at least " ++ Nat.toDigits 10 n
  | variadic => chars "any number of"

/-- The arity as it is shown in the description of a function. -/
def describe : Arity → Text
  | fixed n => chars "Fixed(" ++ Nat.toDigits 10 n ++ chars ")"
  | atLeast n => chars "AtLeast(" ++ Nat.toDigits 10 n ++ chars ")"
  | variadic => chars "Variadic"

end Arity

/-- The arguments of a call: values, or the texts they were written as. -/
inductive Arguments where
  | values (vs : List Float)
  | raw (ts : List Text)

def Arguments.count : Arguments → Nat
  | values vs => vs.length
  | raw ts => ts.length

inductive Logic where
  | evaluated (body : List Float → Program Float)
  | raw (body : List Text → Program Float)

structure Function where
  name : Text
  arity : Arity
  isOperator : Bool := false
  logic : Logic
  /-- The partial derivatives with respect to each argument. -/
  derivative : Option (List Float → Program (List Float)) := none

namespace Function

def isRaw (f : Function) : Bool :=
  match f.logic with
  | .raw _ => true
  | .evaluated _ => false

def asOperator (f : Function) : Function := { f with isOperator := true, arity := .fixed 2 }

def arityError (f : Function) (count : Nat) : EvalError := .arity f.name f.arity.render count

def call (f : Function) (arguments : Arguments) : Program Float :=
  if !f.arity.accepts arguments.count then .fail (f.arityError arguments.count)
  else
    match f.logic, arguments with
    | .evaluated body, .values vs => body vs
    | .raw body, .raw ts => body ts
    | .evaluated _, .raw _ => .fail (.function f.name (chars "expected evaluated arguments"))
    | .raw _, .values _ => .fail (.function f.name (chars "expected raw arguments"))

def derivatives? (f : Function) (vs : List Float) : Option (Program (List Float)) :=
  f.derivative.map fun d => if f.arity.accepts vs.length then d vs else .fail (f.arityError vs.length)

private def yesNo (b : Bool) : Text := chars (if b then "true" else "false")

def describe (f : Function) : Text :=
  chars "Function \x7b name: " ++ quoted f.name ++ chars ", arity: " ++ f.arity.describe ++
    chars ", infix: " ++ yesNo f.isOperator ++ chars ", raw: " ++ yesNo f.isRaw ++ chars ", .. \x7d"

end Function

end Netlist
