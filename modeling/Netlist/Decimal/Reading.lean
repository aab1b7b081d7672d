import Netlist.Text.Blank

/-!
Decimal text to double. `nearestDouble` rounds `digits · 10^scale` correctly; exponents so large
or so small that the result cannot depend on them any more are cut off first. `parse?` reads the
spellings of a number: digits with an optional point and exponent, `inf`, `infinity` and `nan`
in any letter case, with an optional sign.
-/
namespace Netlist.Decimal

/-- The value of a run of ASCII digits. -/
def digitsValue (digits : Text) : Nat :=
  digits.foldl (fun value c => 10 * value + (c.toNat - '0'.toNat)) 0

/-- The double nearest to `digits · 10^scale`. -/
def nearestDouble (digits : Nat) (scale : Int) : Float :=
  if digits = 0 then 0
  else
    let size : Int := (Nat.toDigits 10 digits).length
    if 400 < scale + size then Float.ofBits 0x7ff0000000000000
    else if scale + size < -400 then 0
    else if 0 ≤ scale then Float.ofScientific digits false scale.toNat
    else Float.ofScientific digits true (-scale).toNat

def assemble (whole fraction : Text) (negativeExponent : Bool) (exponent : Text) : Float :=
  let magnitude : Int := digitsValue exponent
  let scale := (if negativeExponent then -magnitude else magnitude) - fraction.length
  nearestDouble (digitsValue (whole ++ fraction)) scale

def splitSign : Text → Bool × Text
  | '-' :: rest => (true, rest)
  | '+' :: rest => (false, rest)
  | t => (false, t)

/-- The optional exponent at the end of a number: absent, or the mark, a sign and digits. -/
def exponent? : Text → Option (Bool × Text)
  | [] => some (false, [])
  | mark :: rest =>
    let (negative, digits) := splitSign rest
    if (mark == 'e' || mark == 'E') && !digits.isEmpty && digits.all Char.isDigit then
      some (negative, digits) else none

def unsigned? (t : Text) : Option Float :=
  let word := asciiLower t
  if word == chars "inf" || word == chars "infinity" then some (Float.ofBits 0x7ff0000000000000)
  else if word == chars "nan" then some (Float.ofBits 0x7ff8000000000000)
  else
    let whole := t.takeWhile Char.isDigit
    let afterWhole := t.dropWhile Char.isDigit
    let (fraction, rest) := match afterWhole with
      | '.' :: more => (more.takeWhile Char.isDigit, more.dropWhile Char.isDigit)
      | other => ([], other)
    if whole.isEmpty && fraction.isEmpty then none
    else (exponent? rest).map fun (negative, digits) => assemble whole fraction negative digits

def parse? (t : Text) : Option Float :=
  let (negative, rest) := splitSign t
  (unsigned? rest).map fun magnitude => if negative then -magnitude else magnitude

end Netlist.Decimal
