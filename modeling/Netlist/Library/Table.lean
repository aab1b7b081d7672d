import Netlist.Expression.Function
import Netlist.Library.Scalar

/-!
Lookup tables. Between its points a table is linear; outside of them it has the value of the
nearest end. Points are sorted by their coordinate, and a lookup lies in the segment that ends at
the first point behind it.
-/
namespace Netlist

/-- A piecewise linear function through points in increasing order. -/
structure Table (α : Type) where
  points : List (α × α)
  deriving Repr

namespace Table
variable {α : Type} [Scalar α]

/-- The table through the given points, in any order; points with equal coordinates keep theirs. -/
def ofPoints (points : List (α × α)) : Table α :=
  ⟨points.mergeSort fun p q => Scalar.precedes p.1 q.1⟩

/-- Where a coordinate lies: on the first or last value, inside the segment that ends at an index,
or nowhere. -/
inductive Place where
  | undefined
  | end (index : Nat)
  | segment (index : Nat)
  deriving DecidableEq, Repr

/-- Where a coordinate lies, by the index of the first point behind it among points in increasing
order. The ends decide before that index does. -/
def placeAt (t : Table α) (x : α) (behind : Nat) : Place :=
  match t.points.head?, t.points.getLast? with
  | some first, some last =>
    if Scalar.isUndefined x then .undefined
    else if x ≤ first.1 then .end 0
    else if last.1 ≤ x then .end (t.points.length - 1)
    else
      match behind with
      | 0 => .end (t.points.length - 1)
      | index => .segment index
  | _, _ => .undefined

def place (t : Table α) (x : α) : Place := t.placeAt x (t.points.takeWhile fun p => decide (p.1 ≤ x)).length

def point (t : Table α) (index : Nat) : α × α := t.points.getD index (Scalar.undefined, Scalar.undefined)

/-- The value at a coordinate; undefined for an empty table and at an undefined coordinate. -/
def value (t : Table α) (x : α) : α :=
  match t.place x with
  | .undefined => Scalar.undefined
  | .end index => (t.point index).2
  | .segment index =>
    let (x₀, y₀) := t.point (index - 1)
    let (x₁, y₁) := t.point index
    if x == x₀ then y₀ else y₀ + (y₁ - y₀) * (x - x₀) / (x₁ - x₀)

/-- The derivatives of a lookup: by the coordinate, and by the value of each point. -/
structure Partials (α : Type) where
  slope : α
  weights : List α

/-- The derivatives at a coordinate. They are undefined at an undefined coordinate. -/
def partials (t : Table α) (x : α) : Partials α :=
  if Scalar.isUndefined x then ⟨Scalar.undefined, t.points.map fun _ => Scalar.undefined⟩
  else
    let none := t.points.map fun _ => (Scalar.zero : α)
    match t.place x with
    | .undefined => ⟨Scalar.zero, none⟩
    | .end index => ⟨Scalar.zero, none.set index Scalar.one⟩
    | .segment index =>
      let (x₀, y₀) := t.point (index - 1)
      let (x₁, y₁) := t.point index
      let share := (x - x₀) / (x₁ - x₀)
      ⟨(y₁ - y₀) / (x₁ - x₀), (none.set (index - 1) (Scalar.one - share)).set index share⟩

/-- Neighbours in pairs; a single last item is left out. -/
def pairs : List α → List (α × α)
  | x :: y :: rest => (x, y) :: pairs rest
  | _ => []

end Table

namespace Library

/-- Looks up a coordinate in a table given by the coordinates and values behind it. The texts of
the arguments are evaluated in order. -/
def tableFunction : Function where
  name := chars "table"
  arity := .atLeast 3
  logic := .raw fun ts =>
    if ts.length % 2 = 0 then
      .fail (.function (chars "table") (chars "expected a lookup value followed by x/y pairs"))
    else do
      match ← Program.values ts with
      | x :: rest => return (Table.ofPoints (Table.pairs rest)).value x
      | [] => Program.violated

end Library

end Netlist
