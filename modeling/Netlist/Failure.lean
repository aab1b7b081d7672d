import Netlist.Expression.Error
import Netlist.Lexer.Run

/-!
Why a command ends early: what was being done, and what went wrong.
-/
namespace Netlist

/-- What was being done. Paths and expressions are given as the user wrote them. -/
inductive Undertaking where
  | readConfiguration (path : Text)
  | parseConfiguration (path : Text)
  | readInput (path : Text)
  | tokenize (path : Text)
  | defineParameter (name : Text)
  | evaluate (expression : Text)
  deriving DecidableEq, Repr

def Undertaking.message : Undertaking → Text
  | readConfiguration path => chars "Failed to read configuration file " ++ quoted path ++ ['.']
  | parseConfiguration path => chars "Failed to parse configuration file " ++ quoted path ++ ['.']
  | readInput path => chars "Failed to read input file " ++ quoted path ++ ['.']
  | tokenize path => chars "Failed to tokenize " ++ quoted path ++ ['.']
  | defineParameter name => chars "Failed to evaluate parameter \x60" ++ name ++ chars "\x60."
  | evaluate expression => chars "Failed to evaluate \x60" ++ expression ++ chars "\x60."

inductive Cause where
  | unreadable
  | malformed
  | evaluation (e : EvalError)
  | lexing (f : Lexer.Failure)
  deriving DecidableEq, Repr

def Cause.message : Cause → Text
  | unreadable => chars "the file cannot be read"
  | malformed => chars "the configuration is not valid"
  | evaluation e => e.message
  | lexing f => f.render

/-- Why a command ends: with a cause, in an undertaking that gives it a context or in none, or with
a computation that cannot go on. -/
inductive Failure where
  | failed (context : Option Undertaking) (cause : Cause)
  | stopped (fault : Fault)

def Failure.report : Failure → List Text
  | failed context cause => (context.map Undertaking.message).toList ++ [cause.message]
  | stopped _ => [chars "the evaluation cannot go on"]

def Failure.ofFault (context : Option Undertaking) : Fault → Failure
  | .error e => .failed context (.evaluation e)
  | fault => .stopped fault

end Netlist
