/-!
What a double-precision number stands for: a sign and either a finite value `m · 2^e`, infinity
or no number at all. All decimal writing and all exact arithmetic start from this view.
-/
namespace Netlist

/-- The value of a double: `finite s m e` is `± m · 2^e`, with the sign kept on zero. -/
inductive Binary where
  | finite (negative : Bool) (mantissa : Nat) (exponent : Int)
  | infinite (negative : Bool)
  | notANumber
  deriving DecidableEq, Repr

namespace Binary

/-- The value of a bit pattern: eleven exponent bits and fifty-two fraction bits. -/
def ofBits (bits : UInt64) : Binary :=
  let n := bits.toNat
  let negative := n / Nat.pow 2 63 = 1
  let field : Nat := n / Nat.pow 2 52 % 2048
  let fraction := n % Nat.pow 2 52
  if field = 2047 then if fraction = 0 then .infinite negative else .notANumber
  else if field = 0 then .finite negative fraction (-1074)
  else .finite negative (Nat.pow 2 52 + fraction) ((field : Int) - 1075)

def ofFloat (x : Float) : Binary := ofBits x.toBits

/-- The double `m · 2^e`, which must be one exactly. -/
def exactly (negative : Bool) (mantissa : Nat) (exponent : Int) : Float :=
  let magnitude := (Float.ofNat mantissa).scaleB exponent
  if negative then -magnitude else magnitude

end Binary

/-- Whether the sign bit of a number is set; no answer for NaN. -/
def isNegative (x : Float) : Bool :=
  match Binary.ofFloat x with
  | .finite negative .. | .infinite negative => negative
  | .notANumber => false

end Netlist
