import Netlist.Decimal.Binary

/-!
Comparisons that decide on every pair of doubles. `minimum` and `maximum` disregard one NaN and
keep the first of two equal numbers; `precedes` is the total order in which `-0` comes before `0`
and NaN last.
-/
namespace Netlist

/-- The smaller number, disregarding a NaN. -/
def minimum (a b : Float) : Float := if a.isNaN then b else if b < a then b else a

/-- The greater number, disregarding a NaN. -/
def maximum (a b : Float) : Float := if a.isNaN then b else if a < b then b else a

/-- One if positive, minus one if negative, otherwise zero. -/
def sign (x : Float) : Float := if x > 0 then 1 else if x < 0 then -1 else 0

def withSignOf (magnitude source : Float) : Float :=
  if isNegative source then -magnitude.abs else magnitude.abs

/-- Place of a bit pattern in the total order of doubles. -/
def orderKey (x : Float) : Int :=
  match Binary.ofFloat x with
  | .notANumber => UInt64.size
  | _ => if isNegative x then -1 - (x.abs.toBits.toNat : Int) else (x.toBits.toNat : Int)

/-- The total order, as a test for sorting: `a` may stand before `b`. -/
def precedes (a b : Float) : Bool := decide (orderKey a ≤ orderKey b)

end Netlist
