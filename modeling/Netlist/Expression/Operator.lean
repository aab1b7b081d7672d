import Netlist.Expression.Function
import Netlist.Expression.Builtin
import Netlist.Real.Rounding

/-!
The operators of expressions. Multiplication binds tighter than addition, comparisons and logic
bind less; powers and operators defined by functions bind tightest, tighter than signs.
-/
namespace Netlist

inductive BinaryOperator where
  | or | and | equal | unequal | less | lessEqual | greater | greaterEqual
  | add | subtract | multiply | divide | modulo | power
  deriving DecidableEq, Repr

inductive UnaryOperator where
  | plus | negate | not
  deriving DecidableEq, Repr

namespace Precedence

def conditional : Nat := 1

def sign : Nat := 8

/-- The precedence of powers and of operators defined by functions. -/
def power : Nat := 9

end Precedence

def truth (b : Bool) : Float := if b then 1 else 0

namespace BinaryOperator

/-- The spellings of the operators; longer ones stand before those they start with. -/
def spellings : List (Text × BinaryOperator) := [
  (chars "||", or), (chars "&&", and), (chars "==", equal), (chars "!=", unequal), (chars "<>", unequal),
  (chars "<=", lessEqual), (chars ">=", greaterEqual), (chars "<", less), (chars ">", greater),
  (chars "+", add), (chars "-", subtract), (chars "*", multiply), (chars "/", divide), (chars "%", modulo),
  (chars "^", power)]

def read? (t : Text) : Option (BinaryOperator × Text) :=
  spellings.findSome? fun (spelling, op) => (afterOpening? spelling t).map (op, ·)

def precedence : BinaryOperator → Nat
  | or => 2
  | and => 3
  | equal | unequal => 4
  | less | lessEqual | greater | greaterEqual => 5
  | add | subtract => 6
  | multiply | divide | modulo => 7
  | power => Precedence.power

def apply (op : BinaryOperator) (a b : Float) : Float :=
  match op with
  | or => truth (a != 0 || b != 0)
  | and => truth (a != 0 && b != 0)
  | equal => truth (a == b)
  | unequal => truth (a != b)
  | less => truth (a < b)
  | lessEqual => truth (a ≤ b)
  | greater => truth (a > b)
  | greaterEqual => truth (a ≥ b)
  | add => a + b
  | subtract => a - b
  | multiply => a * b
  | divide => a / b
  | modulo => remainder a b
  | power => a.pow b

end BinaryOperator

def UnaryOperator.apply (op : UnaryOperator) (x : Float) : Float :=
  match op with
  | plus => x
  | negate => -x
  | not => truth (x == 0)

/-- What a call in progress is a call of. -/
inductive Callee where
  | function (f : Function)
  | builtin (f : Builtin)
  | unknown (name : Text)

/-- What waits on the operator stack of an evaluation. -/
inductive Operation where
  | binary (op : BinaryOperator)
  | unary (op : UnaryOperator)
  /-- An operator defined by a function. -/
  | named (f : Function)
  | parenthesis
  /-- A call, with the number of values below its arguments. -/
  | call (callee : Callee) (base : Nat)
  /-- A question mark that waits for its colon. -/
  | question
  /-- A complete conditional, which takes three operands. -/
  | conditional

namespace Operation

/-- How tightly an operation binds; grouping has no precedence and is never applied by itself. -/
def precedence? : Operation → Option Nat
  | binary op => some op.precedence
  | unary _ => some Precedence.sign
  | named _ => some Precedence.power
  | conditional => some Precedence.conditional
  | parenthesis | call .. | question => none

def isCall : Operation → Bool
  | call .. => true
  | _ => false

end Operation

end Netlist
