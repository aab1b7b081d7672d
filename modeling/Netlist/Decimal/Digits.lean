import Netlist.Decimal.Binary

/-!
The decimal digits of a positive number `m · 2^e`, in exact integer arithmetic.

`nearest` gives a fixed count of digits, rounded to the nearest with ties to the even neighbour.
`shortest` gives the fewest digits that read back to the same double, and among those the
nearest to it: the reals that round to a double form an interval, whose ends belong to it iff
the mantissa is even, and for each count of digits the two decimals around the value are tried.
-/
namespace Netlist.Decimal

/-- A positive decimal `digits · 10^scale`. -/
structure Scaled where
  digits : Nat
  scale : Int
  deriving DecidableEq, Repr

/-- `n · b^e` over `d · b^(-e)`, whichever of the two powers has a nonnegative exponent. -/
private def shifted (n d base : Nat) (e : Int) : Nat × Nat :=
  if 0 ≤ e then (n * Nat.pow base e.toNat, d) else (n, d * Nat.pow base (-e).toNat)

/-- The greatest `p` with `10^p ≤ m · 2^e`. -/
def magnitude (m : Nat) (e : Int) : Int :=
  let (n, d) := shifted m 1 2 e
  let guess := Int.fdiv (((Nat.log2 m : Nat) + e) * 30103) 100000
  let fits (p : Int) : Bool :=
    let (n, d) := shifted n d 10 (-p)
    decide (d ≤ n)
  if fits (guess + 1) then guess + 1 else if fits guess then guess else guess - 1

/-- The count of digits asked for, rounded to nearest, ties to even. -/
def nearest (count m : Nat) (e : Int) : Scaled :=
  let scale := magnitude m e - count + 1
  let (n, d) := shifted m 1 2 e
  let (n, d) := shifted n d 10 (-scale)
  let low := n / d
  let rest := 2 * (n % d)
  ⟨if rest < d then low else if d < rest then low + 1 else low + low % 2, scale⟩

/-- The interval of reals that round to `m · 2^e`, in quarters of the last place: its ends and
whether they belong to it. The gap below a power of two is half as wide. -/
def readsBack (m : Nat) (e : Int) : Nat × Nat × Bool :=
  (if m = Nat.pow 2 52 ∧ -1074 < e then 4 * m - 1 else 4 * m - 2, 4 * m + 2, m % 2 = 0)

/-- The decimal with the given count of digits that reads back, if there is one: of two the
nearer, and of two equally near the greater. -/
def candidate? (count m : Nat) (e : Int) : Option Scaled :=
  let scale := magnitude m e - count + 1
  let (low, high, closed) := readsBack m e
  let (factor, d) := shifted 1 1 2 (e - 2)
  let (factor, d) := shifted factor d 10 (-scale)
  let n := 4 * m * factor
  let below := n / d
  let belowFits := if closed then decide (low * factor ≤ below * d) else decide (low * factor < below * d)
  let aboveFits := if closed then decide ((below + 1) * d ≤ high * factor)
    else decide ((below + 1) * d < high * factor)
  if belowFits && (!aboveFits || decide (2 * (n % d) < d)) then some ⟨below, scale⟩
  else if aboveFits then some ⟨below + 1, scale⟩
  else none

/-- The fewest digits that read back; seventeen always do. -/
def shortest (m : Nat) (e : Int) : Scaled :=
  ((List.range' 1 17).findSome? (candidate? · m e)).getD (nearest 17 m e)

/-- Digits without trailing zeros, at most `fuel` of them removed. -/
private def stripZeros : Nat → Scaled → Scaled
  | 0, s => s
  | fuel + 1, s => if s.digits % 10 = 0 then stripZeros fuel ⟨s.digits / 10, s.scale + 1⟩ else s

def Scaled.normal (s : Scaled) : Scaled := if s.digits = 0 then s else stripZeros 20 s

end Netlist.Decimal
