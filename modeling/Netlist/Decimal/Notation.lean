import Netlist.Decimal.Digits
import Netlist.Text.Basic

/-!
The three ways in which numbers are written: in scientific notation with as few digits as read
back or with a fixed count of digits, and positionally, never with an exponent. In all of them
the sign of zero is kept, infinity is `inf`, and a NaN shows no sign.
-/
namespace Netlist.Decimal

def signed (negative : Bool) (magnitude : Text) : Text :=
  if negative then '-' :: magnitude else magnitude

private def special : Binary → Text
  | .infinite negative => signed negative (chars "inf")
  | _ => chars "NaN"

def decimalText (n : Nat) : Text := Nat.toDigits 10 n

private def integerText : Int → Text
  | .ofNat n => decimalText n
  | .negSucc n => '-' :: decimalText (n + 1)

private def withExponent (s : Scaled) : Text :=
  let digits := decimalText s.digits
  let exponent := s.scale + digits.length - 1
  let fraction := digits.drop 1
  digits.take 1 ++ (if fraction.isEmpty then [] else '.' :: fraction) ++ 'e' :: integerText exponent

/-- Fewest digits that read back, with an exponent: `1e0`, `-2.5e-3`. -/
def scientific (x : Float) : Text :=
  match Binary.ofFloat x with
  | .finite negative 0 _ => signed negative (chars "0e0")
  | .finite negative m e => signed negative (withExponent (shortest m e).normal)
  | other => special other

/-- Exactly `count` digits, with an exponent: `3.33e-1`. -/
def significant (count : Nat) (x : Float) : Text :=
  match Binary.ofFloat x with
  | .finite negative 0 _ =>
    let zeros := List.replicate (count - 1) '0'
    signed negative ('0' :: (if zeros.isEmpty then [] else '.' :: zeros) ++ chars "e0")
  | .finite negative m e =>
    let s := nearest count m e
    signed negative (withExponent (if s.digits = Nat.pow 10 count then ⟨s.digits / 10, s.scale + 1⟩ else s))
  | other => special other

/-- Fewest digits that read back, written out in full: `1000`, `0.1`, `-0`. -/
def positional (x : Float) : Text :=
  match Binary.ofFloat x with
  | .finite negative 0 _ => signed negative (chars "0")
  | .finite negative m e =>
    let s := (shortest m e).normal
    let digits := decimalText s.digits
    signed negative <|
      if 0 ≤ s.scale then digits ++ List.replicate s.scale.toNat '0'
      else
        let places := (-s.scale).toNat
        let padded := List.replicate (places + 1 - digits.length) '0' ++ digits
        padded.take (padded.length - places) ++ '.' :: padded.drop (padded.length - places)
  | other => special other

end Netlist.Decimal
