import Netlist.Real.Elementary
import Netlist.Text.Basic

/-!
Elementary functions that every expression can use, whatever its scope defines.
-/
namespace Netlist

inductive Builtin where
  | sin | cos | tan | asin | acos | atan | sinh | cosh | tanh | asinh | acosh | atanh
  | exp | abs | floor | ceil | cbrt | atan2 | hypot
  deriving DecidableEq, Repr

namespace Builtin

def all : List Builtin :=
  [sin, cos, tan, asin, acos, atan, sinh, cosh, tanh, asinh, acosh, atanh, exp, abs, floor, ceil, cbrt, atan2, hypot]

def name (f : Builtin) : Text :=
  chars <| match f with
  | sin => "sin" | cos => "cos" | tan => "tan" | asin => "asin" | acos => "acos" | atan => "atan"
  | sinh => "sinh" | cosh => "cosh" | tanh => "tanh" | asinh => "asinh" | acosh => "acosh" | atanh => "atanh"
  | exp => "exp" | abs => "abs" | floor => "floor" | ceil => "ceil" | cbrt => "cbrt" | atan2 => "atan2"
  | hypot => "hypot"

/-- The function with a name, in any letter case. -/
def ofName? (t : Text) : Option Builtin := all.find? fun f => equalIgnoringCase f.name t

def argumentCount : Builtin → Nat
  | atan2 | hypot => 2
  | _ => 1

/-- The value of a function; functions of one argument disregard the second. -/
def apply (f : Builtin) (x y : Float) : Float :=
  match f with
  | sin => x.sin | cos => x.cos | tan => x.tan | asin => x.asin | acos => x.acos | atan => x.atan
  | sinh => x.sinh | cosh => x.cosh | tanh => x.tanh | asinh => arsinh x | acosh => arcosh x
  | atanh => artanh x | exp => x.exp | abs => x.abs | floor => x.floor | ceil => x.ceil | cbrt => cubeRoot x
  | atan2 => Float.atan2 x y | hypot => hypotenuse x y

end Builtin

/-- The constants that are used where no parameter has their name. -/
def constant? (name : Text) : Option Float :=
  if equalIgnoringCase name (chars "pi") then some 3.141592653589793
  else if equalIgnoringCase name (chars "e") then some 2.718281828459045
  else none

end Netlist
