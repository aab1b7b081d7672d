import Netlist.Library.Power

/-!
Signs, bounds, choices and rounding, and the functions over the texts of their arguments.
-/
namespace Netlist.Library

/-- A value held between two bounds given in either order. At least one bound has to be a number. -/
def limit (x a b : Float) : Program Float :=
  let low := minimum a b
  let high := maximum a b
  if !(low ≤ high) then .violated else .done (if x < low then low else if x > high then high else x)

/-- The remainder of a division; there is none by zero. -/
def modulo (x y : Float) : Program Float :=
  if y == 0 then .fail (.function (chars "mod") (chars "division by zero")) else .done (remainder x y)

private def positiveInfinity : Float := Float.ofBits 0x7ff0000000000000

private def ofOne (name : String) (f : Float → Float) : Function :=
  { name := chars name, arity := .fixed 1, logic := unary f }

private def flatOne (name : String) (f : Float → Float) : Function :=
  { ofOne name f with derivative := slope fun _ => 0 }

def limitFunction : Function where
  name := chars "limit"
  arity := .fixed 3
  logic := .evaluated fun
    | [x, a, b] => limit x a b
    | _ => .violated

def definedFunction : Function where
  name := chars "def"
  arity := .fixed 1
  logic := .raw fun
    | [name] => .parameter name fun v => .done (if v.isSome then 1 else 0)
    | _ => .violated

/-- The value of its argument, evaluated only when the call is. -/
def lazyFunction : Function where
  name := chars "lazy"
  arity := .fixed 1
  logic := .raw fun
    | [t] => .value [] t
    | _ => .violated

def choices : List Function := [
  flatOne "sgn" sign,
  flatOne "sign" sign,
  { name := chars "min", arity := .atLeast 1
    logic := .evaluated fun vs => .done (vs.foldl minimum positiveInfinity) },
  { name := chars "max", arity := .atLeast 1
    logic := .evaluated fun vs => .done (vs.foldl maximum (-positiveInfinity)) },
  limitFunction,
  { name := chars "if", arity := .fixed 3
    logic := .evaluated fun
      | [condition, consequence, otherwise] => .done (if condition != 0 then consequence else otherwise)
      | _ => .violated },
  ofOne "round" Float.round,
  ofOne "int" truncate,
  ofOne "nint" roundTiesEven,
  flatOne "u" fun x => if x > 0 then 1 else 0,
  { ofOne "uramp" (fun x => if x > 0 then x else 0) with derivative := slope fun x => if x > 0 then 1 else 0 },
  { name := chars "mod", arity := .fixed 2
    logic := .evaluated fun
      | [x, y] => modulo x y
      | _ => .violated },
  definedFunction, lazyFunction]

end Netlist.Library
