import Netlist.Line.Physical

/-!
The state of a tokenization between two matches. Predicates of rules read it, actions may change
its flags; `advance` moves the line and the column past consumed text.
-/
namespace Netlist.Lexer

structure State (κ : Type) where
  /-- The kind of the last emitted token; suppressed tokens do not count. -/
  previous : Option κ := none
  line : Nat := 1
  /-- The column of the next character, counted in characters from 1. -/
  column : Nat := 1
  /-- Whether the match takes the rest of its physical line; only actions see it set. -/
  fullMatch : Bool := false
  /-- Whether a line break follows the match; only actions see it set. -/
  lineBreakFollows : Bool := false
  inCommentBlock : Bool := false
  startOfLine : Bool := true
  deriving DecidableEq, Repr

namespace State
variable {κ : Type}

def previousIs [BEq κ] (s : State κ) (kinds : List κ) : Bool := s.previous.any kinds.contains

def afterBreak (s : State κ) : State κ := { s with line := s.line + 1, column := 1, startOfLine := true }

def afterCharacter (s : State κ) : State κ := { s with column := s.column + 1, startOfLine := false }

/-- Behind consumed text; a carriage return and a line feed together break one line. -/
def advance (s : State κ) : Text → State κ
  | [] => s
  | '\r' :: '\n' :: rest => s.afterBreak.advance rest
  | c :: rest => if isLineBreak c then s.afterBreak.advance rest else s.afterCharacter.advance rest

end State

end Netlist.Lexer
