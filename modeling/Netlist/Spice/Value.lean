import Netlist.Expression.Evaluation
import Netlist.Spice.Grammar

/-!
Numeric values of tokens. Expressions in a netlist stand in delimiters, which are taken off
before the expression is evaluated.
-/
namespace Netlist.Spice

open Lexer

def inside? (opening closing : Char) (t : Text) : Option Text :=
  (afterOpening? [opening] t).bind (beforeClosing? [closing])

/-- The expression that a token holds, without delimiters, continuation markers and the white
space around it. -/
def expressionText (token : Token Kind) : Text :=
  let inner := match token.kind with
    | .expressionBracket => inside? '\x7b' '\x7d' token.lexeme
    | .singleQuoted => inside? '\x27' '\x27' token.lexeme
    | .booleanExpression => inside? '(' ')' token.lexeme
    | _ => none
  trim (withoutContinuations (inner.getD token.lexeme))

/-- An expression without the braces or quotes that a netlist would put around it. -/
def bareExpression (t : Text) : Text :=
  let t := trim t
  ((inside? '\x7b' '\x7d' t).or (inside? '\x27' '\x27' t)).getD t

inductive ValueError where
  | evaluation (line : Nat) (source : EvalError)
  | notAValue (kind : Kind) (lexeme : Text) (line : Nat)
  deriving DecidableEq, Repr

def ValueError.message : ValueError → Text
  | evaluation line source => chars "at line " ++ Nat.toDigits 10 line ++ chars ": " ++ source.message
  | notAValue kind lexeme line =>
    kind.name ++ chars " token \x60" ++ lexeme ++ chars "\x60 at line " ++ Nat.toDigits 10 line ++
      chars " has no numeric value"

def literalValue (token : Token Kind) (t : Text) : Eval World (Except ValueError Float) :=
  match Number.number t with
  | .found v _ => return .ok v
  | .absent => return .error (.notAValue token.kind token.lexeme token.line)
  | .torn => throw .violated

/-- The value of a token: numbers and percentages have their own, names and expressions are
evaluated in a scope. -/
def tokenValue (scope : Scope) (token : Token Kind) : Eval World (Except ValueError Float) :=
  let evaluated (t : Text) : Eval World (Except ValueError Float) := do
    return (← (scope.evaluate none t).attempt).mapError (.evaluation token.line)
  match token.kind with
  | .value => literalValue token token.lexeme
  | .percent =>
    match beforeClosing? ['%'] token.lexeme with
    | some t => do return (← literalValue token t).map (· / 100)
    | none => return .error (.notAValue token.kind token.lexeme token.line)
  | .expressionBracket | .singleQuoted | .booleanExpression => evaluated (expressionText token)
  | .word | .identifier | .reference => evaluated token.lexeme
  | _ => return .error (.notAValue token.kind token.lexeme token.line)

end Netlist.Spice
