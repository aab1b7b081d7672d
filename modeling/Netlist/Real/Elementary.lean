import Netlist.Decimal.Binary
import Netlist.Real.Order

/-!
Elementary functions that are computed from others: the length of a vector, the cube root, the
logarithm of one plus a small number, and the inverse hyperbolic functions.
-/
namespace Netlist

private def scaledLength (power : Int) (x y : Float) : Float :=
  let a := x.scaleB (-power)
  let b := y.scaleB (-power)
  (Float.sqrt (a * a + b * b)).scaleB power

/-- The length of the vector `(x, y)`, scaled so that no square leaves the range. -/
def hypotenuse (x y : Float) : Float :=
  let a := x.abs
  let b := y.abs
  if a.isInf || b.isInf then Float.ofBits 0x7ff0000000000000
  else if a.isNaN || b.isNaN then a + b
  else
    let large := if a < b then b else a
    let small := if a < b then a else b
    if large == 0 then 0
    else if large > 1e150 then scaledLength 600 large small
    else if small < 1e-150 && large < 1e-50 then scaledLength (-600) large small
    else Float.sqrt (large * large + small * small)

/-- The largest number that agrees with `root` above its lowest `bits` bits and whose cube does not
exceed `n`. -/
def cubeRootBits (n : Nat) : Nat → Nat → Nat
  | 0, root => root
  | bits + 1, root =>
    let raised := root + Nat.pow 2 bits
    cubeRootBits n bits (if Nat.pow raised 3 ≤ n then raised else root)

/-- The double nearest to the cube root. The root of the mantissa is taken with more bits than a
double has, and one more bit that says whether anything is left, so the conversion rounds once. -/
def cubeRoot (x : Float) : Float :=
  match Binary.ofFloat x with
  | .finite negative mantissa exponent =>
    if mantissa = 0 then x
    else
      let shift := 165 + (exponent - 165) % 3
      let n := mantissa * Nat.pow 2 shift.toNat
      let root := cubeRootBits n 74 0
      let doubled := 2 * root + (if Nat.pow root 3 = n then 0 else 1)
      let magnitude := (Float.ofScientific doubled false 0).scaleB ((exponent - shift) / 3 - 1)
      if negative then -magnitude else magnitude
  | _ => x

/-- The natural logarithm of `1 + x`, accurate near zero. The correction `x / (u - 1)` is near one,
so the product stays in range. -/
def logOnePlus (x : Float) : Float :=
  let u := 1 + x
  if u == 1 then x
  else if u.isInf || u.isNaN then u.log
  else u.log * (x / (u - 1))

def arsinh (x : Float) : Float :=
  let a := x.abs
  let inverse := 1 / a
  withSignOf (logOnePlus (a + a / (hypotenuse 1 inverse + inverse))) x

def arcosh (x : Float) : Float :=
  if x < 1 then 0 / 0 else ((x - 1).sqrt * (x + 1).sqrt + x).log

def artanh (x : Float) : Float := 0.5 * logOnePlus (2 * x / (1 - x))

end Netlist
