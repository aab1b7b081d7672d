import Netlist.Text.Basic

/-!
Why an evaluation fails. An `EvalError` is what the caller of an evaluation gets to see; a
`Fault` is either such an error or an end that no caller can handle.
-/
namespace Netlist

inductive EvalError where
  | empty
  | unknownParameter (name expression : Text)
  /-- A function is neither defined nor built in. -/
  | unknownFunction (name expression : Text)
  | arity (name expected : Text) (found : Nat)
  | unbalancedParentheses (expression : Text)
  /-- There is a question mark without a colon or a colon without a question mark. -/
  | unmatchedConditional (expression : Text)
  /-- A text cannot stand where it stands; the offset is in bytes. -/
  | unexpectedText (found : Text) (offset : Nat) (expression : Text)
  /-- An operator lacks an operand. -/
  | stackUnderflow (expression : Text)
  /-- The expression still has its outer delimiters. -/
  | bracketed (expression : Text)
  | function (name message : Text)
  deriving DecidableEq, Repr

namespace EvalError

private def ticked (t : Text) : Text := '\x60' :: t ++ ['\x60']

def message : EvalError → Text
  | empty => chars "empty expression"
  | unknownParameter name expression => chars "unknown parameter " ++ ticked name ++ chars " in " ++ ticked expression
  | unknownFunction name expression => chars "unknown function " ++ ticked name ++ chars " in " ++ ticked expression
  | arity name expected found =>
    chars "function " ++ ticked name ++ chars " expects " ++ expected ++ chars " argument(s), got " ++
      Nat.toDigits 10 found
  | unbalancedParentheses expression => chars "unbalanced parentheses in " ++ ticked expression
  | unmatchedConditional expression => chars "unmatched conditional in " ++ ticked expression
  | unexpectedText found offset expression =>
    chars "unexpected " ++ ticked found ++ chars " at offset " ++ Nat.toDigits 10 offset ++ chars " in " ++
      ticked expression
  | stackUnderflow expression => chars "missing operand in " ++ ticked expression
  | bracketed expression =>
    chars "expression " ++ ticked expression ++ chars " must be stripped of its delimiters before evaluation"
  | function name text => chars "error in function " ++ ticked name ++ chars ": " ++ text

end EvalError

/-- How a computation ends without a result: with an error, with a violated precondition, or
because functions call one another more deeply than is followed. -/
inductive Fault where
  | error (e : EvalError)
  /-- A precondition is violated. -/
  | violated
  /-- Calls nest too deeply. -/
  | exhausted
  deriving DecidableEq, Repr

/-- A computation over a state that is kept when the computation fails. -/
abbrev Eval (σ : Type) := ExceptT Fault (StateM σ)

namespace Eval
variable {σ α : Type}

def raise (e : EvalError) : Eval σ α := throw (.error e)

/-- The result of a computation, or its error as a value; other faults are passed on. -/
def attempt (m : Eval σ α) : Eval σ (Except EvalError α) := fun s =>
  match m s with
  | (.ok a, s) => (.ok (.ok a), s)
  | (.error (.error e), s) => (.ok (.error e), s)
  | (.error fault, s) => (.error fault, s)

def ofExcept : Except EvalError α → Eval σ α
  | .ok a => return a
  | .error e => raise e

end Eval

end Netlist
