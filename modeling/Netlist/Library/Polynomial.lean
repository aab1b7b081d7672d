import Netlist.Decimal.Notation
import Netlist.Expression.Function
import Netlist.Library.Scalar
import Netlist.Real.Rounding

/-!
Polynomials in several variables, given by their coefficients alone. Terms are ordered by degree,
and within a degree lexicographically by the increasing lists of their variables: for `a` and `b`
the coefficients are those of `1`, `a`, `b`, `a*a`, `a*b`, `b*b` and so on.
-/
namespace Netlist

/-- A polynomial: each coefficient belongs to the term with the same place, which is the list of
the variables multiplied in it. -/
structure Polynomial (α : Type) where
  dimension : Nat
  coefficients : List α
  terms : List (List Nat)
  deriving Repr

namespace Polynomial

/-- The nondecreasing lists of a length with entries from `least` to below `dimension`, in
lexicographic order. -/
def monomialsFrom (dimension : Nat) : Nat → Nat → List (List Nat)
  | 0, _ => [[]]
  | degree + 1, least =>
    (List.range' least (dimension - least)).flatMap fun i => (monomialsFrom dimension degree i).map (i :: ·)

def monomials (dimension degree : Nat) : List (List Nat) := monomialsFrom dimension degree 0

/-- The first `count` terms from a degree on. Every degree has a term, so `fuel = count` degrees
suffice. -/
def termsFrom (dimension : Nat) : Nat → Nat → Nat → List (List Nat)
  | 0, _, _ => []
  | fuel + 1, degree, count =>
    let here := (monomials dimension degree).take count
    if count ≤ here.length then here else here ++ termsFrom dimension fuel (degree + 1) (count - here.length)

/-- The first `count` terms; without variables there is only the constant one. -/
def firstTerms (dimension count : Nat) : List (List Nat) :=
  if dimension = 0 then [([] : List Nat)].take count else termsFrom dimension count 0 count

variable {α : Type} [Scalar α]

/-- The polynomial with the given coefficients. The only coefficient of a polynomial in one
variable belongs to the variable. -/
def ofCoefficients (dimension : Nat) (coefficients : List α) : Polynomial α :=
  let coefficients := if dimension = 1 ∧ coefficients.length = 1 then Scalar.zero :: coefficients else coefficients
  ⟨dimension, coefficients, firstTerms dimension coefficients.length⟩

def variableAt (xs : List α) (i : Nat) : α := xs.getD i Scalar.undefined

def termValue (xs : List α) (term : List Nat) : α := Scalar.product (term.map (variableAt xs))

def summands (p : Polynomial α) : List (α × List Nat) := p.coefficients.zip p.terms

def eval (p : Polynomial α) (xs : List α) : α :=
  Scalar.sum (p.summands.map fun (c, term) => c * termValue xs term)

def termValues (p : Polynomial α) (xs : List α) : List α := p.terms.map (termValue xs)

/-- The derivatives by each variable: every occurrence of a variable in a term contributes the
coefficient times the other factors. -/
def partials (p : Polynomial α) (xs : List α) : List α :=
  p.summands.foldl (fun out (c, term) =>
    term.zipIdx.foldl (fun out (i, place) => out.modify i (· + c * termValue xs (term.eraseIdx place))) out)
    (List.replicate p.dimension Scalar.zero)

/-- The polynomial as an expression over named variables. Terms with the coefficient zero are left
out. -/
def toExpression (p : Polynomial Float) (names : List Text) : Text :=
  let written := (p.summands.filter fun (c, _) => !(c == 0)).map fun (c, term) =>
    Decimal.positional c ++ term.flatMap fun i => '*' :: names.getD i []
  if written.isEmpty then ['0'] else joined (chars " + ") written

end Polynomial

namespace Library

/-- The arguments of `poly`: the dimension, the controlling values and the coefficients. Every
dimension needs a value, and at least one coefficient has to follow. -/
def polynomialArguments : List Float → Except EvalError (Nat × List Float × List Float)
  | [] => .error (.function (chars "poly") [])
  | n :: rest =>
    if n.isNaN || n < 1 || n - truncate n != 0 then
      .error (.function (chars "poly") (chars "dimension must be a positive integer, got " ++ Decimal.positional n))
    else if n > Float.ofNat (rest.length - 1) then
      .error (.arity (chars "poly")
        (chars "at least " ++ Decimal.positional (n + 2) ++ chars " for dimension " ++ Decimal.positional n)
        (rest.length + 1))
    else
      let count := n.toUInt64.toNat
      .ok (count, rest.take count, rest.drop count)

def withArguments {α : Type} (vs : List Float)
    (f : Nat → List Float → List Float → α) : Program α :=
  match polynomialArguments vs with
  | .ok (dimension, xs, coefficients) => .done (f dimension xs coefficients)
  | .error e => .fail e

/-- The derivatives of `poly`: zero for the dimension, the derivatives by the controlling values,
and for each given coefficient the value of its term. -/
def polynomialDerivatives (dimension : Nat) (xs coefficients : List Float) : List Float :=
  let p := Polynomial.ofCoefficients dimension coefficients
  let terms := p.termValues xs
  0 :: p.partials xs ++ terms.drop (terms.length - coefficients.length)

/-- Evaluates a polynomial given by its dimension, the values of its variables and its
coefficients. -/
def polynomialFunction : Function where
  name := chars "poly"
  arity := .atLeast 3
  logic := .evaluated fun vs => withArguments vs fun dimension xs coefficients =>
    (Polynomial.ofCoefficients dimension coefficients).eval xs
  derivative := some fun vs => withArguments vs polynomialDerivatives

end Library

end Netlist
