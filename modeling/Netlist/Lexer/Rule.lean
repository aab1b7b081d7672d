import Netlist.Lexer.State
import Netlist.Pattern.Search

/-!
Rules. A rule recognizes a text at the start of the visible window, either by a pattern or by a
procedure that runs once a trigger pattern matches; it applies only in certain states, and its
action decides whether a match becomes a token. A rule on top wins over all others, however long
their matches are.
-/
namespace Netlist.Lexer

/-- Whether a match is emitted as a token or consumed silently. -/
inductive Emit where
  | token
  | skip
  deriving DecidableEq, Repr

/-- What a procedure has matched: how many characters, and the lexeme of the token. -/
structure Capture where
  length : Nat
  lexeme : Text
  deriving DecidableEq, Repr

/-- A procedure over the window; a message means that the text is malformed. -/
abbrev Matcher (κ : Type) := Text → State κ → Except Text (Option Capture)

inductive Recognizer (κ : Type) where
  | pattern (p : Pattern)
  | procedure (trigger : Pattern) (matcher : Matcher κ)

structure Rule (κ : Type) where
  name : Text
  kind : κ
  recognizer : Recognizer κ
  top : Bool := false
  applies : State κ → Bool := fun _ => true
  action : State κ → Text → State κ × Emit := fun s _ => (s, .token)

/-- Rules in the order of their priority, and the kind of the token that ends every text. -/
structure Grammar (κ : Type) where
  rules : List (Rule κ)
  eof : κ

end Netlist.Lexer
