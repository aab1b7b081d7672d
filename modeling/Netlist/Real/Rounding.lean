import Netlist.Decimal.Binary

/-!
Rounding to whole numbers and the exact remainder. Every function keeps the sign of its first
argument on a zero result.
-/
namespace Netlist

/-- Toward zero. From `2^52` on every double is a whole number. -/
def truncate (x : Float) : Float :=
  if x.abs < Float.ofNat (Nat.pow 2 52) then
    if x < 0 then -(-x).toUInt64.toFloat
    else if x == 0 then x else x.toUInt64.toFloat
  else x

/-- To the nearest whole number, halves to the even one. -/
def roundTiesEven (x : Float) : Float :=
  if (x - truncate x).abs == 0.5 then 2 * (x / 2).round else x.round

/-- The remainder of truncated division, computed exactly: `a - b · trunc (a / b)`. -/
def remainder (a b : Float) : Float :=
  match Binary.ofFloat a, Binary.ofFloat b with
  | .finite negative m e, .finite _ n f =>
    if n = 0 then 0 / 0
    else
      let low := min e f
      Binary.exactly negative ((m * Nat.pow 2 (e - low).toNat) % (n * Nat.pow 2 (f - low).toNat)) low
  | .finite .., .infinite _ => a
  | _, _ => a * b / (a * b)

end Netlist
