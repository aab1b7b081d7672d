import Netlist.Lexer.Balance
import Netlist.Lexer.Definition

/-!
Predicates, actions and procedures described by data, for grammars that come from outside.
-/
namespace Netlist.Lexer
variable {κ : Type}

inductive Condition (κ : Type) where
  | startOfLine
  | notStartOfLine
  | inBlock
  | notInBlock
  | noPrevious
  | previousIs (kinds : List κ)
  | line (n : Nat)
  | column (n : Nat)
  | fullMatch
  | lineBreakFollows
  | never

def Condition.holds [BEq κ] (s : State κ) : Condition κ → Bool
  | startOfLine => s.startOfLine
  | notStartOfLine => !s.startOfLine
  | inBlock => s.inCommentBlock
  | notInBlock => !s.inCommentBlock
  | noPrevious => s.previous.isNone
  | previousIs kinds => s.previousIs kinds
  | line n => s.line == n
  | column n => s.column == n
  | fullMatch => s.fullMatch
  | lineBreakFollows => s.lineBreakFollows
  | never => false

inductive Response where
  | emit
  | skip
  | enterBlock
  | leaveBlock
  | emitIfFullMatch
  | emitIfBreakFollows
  | emitIfLexeme (t : Text)
  | skipInBlock

private def emitIf (condition : Bool) : Emit := if condition then .token else .skip

def Response.action (r : Response) (s : State κ) (lexeme : Text) : State κ × Emit :=
  match r with
  | emit => (s, .token)
  | skip => (s, .skip)
  | enterBlock => ({ s with inCommentBlock := true }, .token)
  | leaveBlock => ({ s with inCommentBlock := false }, .skip)
  | emitIfFullMatch => (s, emitIf s.fullMatch)
  | emitIfBreakFollows => (s, emitIf s.lineBreakFollows)
  | emitIfLexeme t => (s, emitIf (lexeme == t))
  | skipInBlock => (s, emitIf !s.inCommentBlock)

inductive Scan where
  | balanced (opening closing : Char)
  | through (target : Text) (lexeme : Option Text)
  | nothing
  | absent
  | fail (message : Text)

/-- The matcher of a scan. A group that does not close is an error at its place. -/
def Scan.matcher (scan : Scan) : Matcher κ := fun window s =>
  match scan with
  | balanced opening closing =>
    match balancedLength? opening closing 0 window with
    | some length => .ok (some ⟨length, window.take length⟩)
    | none =>
      .error (chars "unbalanced \x60" ++ opening :: chars "\x60 at " ++ Nat.toDigits 10 s.line ++
        ':' :: Nat.toDigits 10 s.column)
  | through target lexeme =>
    .ok ((throughFirst? target window).map fun length => ⟨length, lexeme.getD (window.take length)⟩)
  | nothing => .ok (some ⟨0, []⟩)
  | absent => .ok none
  | fail message => .error message

end Netlist.Lexer
