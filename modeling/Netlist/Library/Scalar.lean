import Netlist.Real.Order

/-!
Numbers that tables and polynomials are made of. The definitions only use these operations, so
they can be read over doubles and over exact numbers alike.
-/
namespace Netlist

/-- Arithmetic, comparisons, and a total order for sorting. -/
class Scalar (α : Type) extends Add α, Sub α, Mul α, Div α, Neg α, LT α, LE α, BEq α where
  zero : α
  one : α
  /-- The value where there is no value. -/
  undefined : α
  /-- Whether a number may stand before another in sorted order. -/
  precedes : α → α → Bool
  decideLT : (a b : α) → Decidable (a < b)
  decideLE : (a b : α) → Decidable (a ≤ b)

namespace Scalar
variable {α : Type} [Scalar α]

instance (a b : α) : Decidable (a < b) := decideLT a b

instance (a b : α) : Decidable (a ≤ b) := decideLE a b

/-- Whether a value is no number: it differs from itself. -/
def isUndefined (a : α) : Bool := !(a == a)

/-- The sum of a list from left to right. It starts at minus zero, which leaves every number as it
is. -/
def sum (as : List α) : α := as.foldl (· + ·) (-zero)

def product (as : List α) : α := as.foldl (· * ·) one

end Scalar

instance : Scalar Float where
  zero := 0
  one := 1
  undefined := Float.ofBits 0x7ff8000000000000
  precedes := Netlist.precedes
  decideLT _ _ := inferInstance
  decideLE _ _ := inferInstance

end Netlist
