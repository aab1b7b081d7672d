import Netlist.Expression.Dialect
import Netlist.Expression.Function
import Netlist.Real.Elementary
import Netlist.Real.Rounding

/-!
Powers, roots and logarithms, whose values for negative arguments depend on the dialect, and
their derivatives.
-/
namespace Netlist.Library

def unary (f : Float → Float) : Logic :=
  .evaluated fun
    | [x] => .done (f x)
    | _ => .violated

def binary (f : Float → Float → Float) : Logic :=
  .evaluated fun
    | [x, y] => .done (f x y)
    | _ => .violated

def slope (f : Float → Float) : Option (List Float → Program (List Float)) :=
  some fun
    | [x] => .done [f x]
    | _ => .violated

/-- Zero for values so close to it that complex evaluation reports them as zero. -/
def snap (x : Float) : Float := if x.abs < 1e-15 then 0 else x

/-- The real part of a complex power with a real base that is not negative: the length of the base
to the exponent, turned by its angle times the exponent. -/
def complexPower (x y : Float) : Float :=
  if y == 0 then 1 else (hypotenuse x 0).pow y * (Float.atan2 0 x * y).cos

/-- Powers by dialect: real, complex with integer exponents for negative bases, of magnitudes with
integer exponents, and with integer exponents. -/
def power (d : Dialect) (x y : Float) : Float :=
  match d with
  | .spice3f5 => x.pow y
  | .ltspice => if x < 0 then x.pow (truncate y) else snap (complexPower x y)
  | .smartspice => x.abs.pow (truncate y)
  | .hspice => x.pow (truncate y)

private def realPowerPartials (x y : Float) : List Float := [y * x.pow (y - 1), x.pow y * x.log]

private def integerPowerPartials (x y : Float) : List Float :=
  let t := truncate y
  [t * x.pow (t - 1), 0]

/-- The derivatives of a power by base and exponent. Where the exponent is truncated the power does
not depend on small changes of it. -/
def powerPartials (d : Dialect) (x y : Float) : List Float :=
  match d with
  | .spice3f5 => realPowerPartials x y
  | .ltspice => if x ≥ 0 then realPowerPartials x y else integerPowerPartials x y
  | .hspice => integerPowerPartials x y
  | .smartspice =>
    let t := truncate y
    [t * x.abs.pow (t - 1) * sign x, 0]

/-- Square roots by dialect: real, the real part of the complex root, of the magnitude, and with
the sign of the argument. -/
def squareRoot (d : Dialect) (x : Float) : Float :=
  match d with
  | .spice3f5 => x.sqrt
  | .ltspice => snap (if isNegative x then 0 else x.sqrt)
  | .smartspice => x.abs.sqrt
  | .hspice => if x < 0 then -(-x).sqrt else x.sqrt

def magnitudePower (d : Dialect) (x y : Float) : Float :=
  match d with
  | .ltspice => x.abs.pow y
  | _ => sign x * x.abs.pow y

def logarithm (d : Dialect) (log : Float → Float) (x : Float) : Float :=
  match d with
  | .smartspice => sign x * log x.abs
  | _ => log x

def decibels (d : Dialect) (x : Float) : Float :=
  match d with
  | .ltspice => 20 * x.abs.log10
  | _ => sign x * 20 * x.abs.log10

private def powerFunction (d : Dialect) (name : String) : Function where
  name := chars name
  arity := .fixed 2
  logic := binary (power d)
  derivative := some fun
    | [x, y] => .done (powerPartials d x y)
    | _ => .violated

def powers (d : Dialect) : List Function := [
  powerFunction d "pow",
  (powerFunction d "**").asOperator,
  { name := chars "sqrt", arity := .fixed 1, logic := unary (squareRoot d), derivative := slope fun x => 0.5 / x.sqrt },
  { name := chars "pwr", arity := .fixed 2, logic := binary (magnitudePower d) },
  { name := chars "pwrs", arity := .fixed 2, logic := binary (magnitudePower d) },
  { name := chars "log", arity := .fixed 1, logic := unary (logarithm d Float.log), derivative := slope (1 / ·) },
  { name := chars "ln", arity := .fixed 1, logic := unary (logarithm d Float.log), derivative := slope (1 / ·) },
  { name := chars "log10", arity := .fixed 1, logic := unary (logarithm d Float.log10)
    derivative := slope fun x => 1 / (x * 2.302585092994046) },
  { name := chars "db", arity := .fixed 1, logic := unary (decibels d) }]

end Netlist.Library
