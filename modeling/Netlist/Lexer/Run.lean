import Netlist.Lexer.Selection
import Netlist.Lexer.Token
import Netlist.Line.Window

/-!
Tokenization. `step` matches one token at a position, `next` steps until a token is to be shown,
and `items` is everything that `next` yields: tokens, and at the end either the token that ends
the text or the first failure. Every step consumes at least one character, which bounds both.
-/
namespace Netlist

namespace Lexer

/-- Options of a lexer: the visible window, the markers that make logical lines, and whether
suppressed tokens are shown. -/
structure Options where
  window : Window := .logical
  continuation : Continuation := {}
  keepSuppressed : Bool := false
  deriving DecidableEq, Repr

structure Failure where
  message : Text
  line : Nat
  column : Nat
  file : Option Text
  deriving DecidableEq, Repr

def Failure.render (f : Failure) : Text :=
  chars "lexer error at line " ++ Nat.toDigits 10 f.line ++ chars ", column " ++
    Nat.toDigits 10 f.column ++ chars ": " ++ f.message

end Lexer

/-- A grammar in use: its options and the name of the file that its tokens carry. -/
structure Lexer (κ : Type) where
  grammar : Lexer.Grammar κ
  options : Lexer.Options := {}
  file : Option Text := none

namespace Lexer
variable {κ : Type}

/-- A tokenization in progress: the remaining text, its byte offset, the state before it, and
whether the end or a failure has been reported. -/
structure Stream (κ : Type) where
  rest : Text
  position : Nat := 0
  state : State κ := {}
  finished : Bool := false

inductive Item (κ : Type) where
  | token (t : Token κ)
  | failure (f : Failure)

/-- The part of the text that the rules see. -/
def window (lexer : Lexer κ) (rest : Text) : Text :=
  lexer.options.window.view lexer.options.continuation rest

/-- The state in which rules are tried. -/
def State.beforeMatch (s : State κ) : State κ := { s with fullMatch := false, lineBreakFollows := false }

/-- The state that the action of a rule sees when it has matched `length` characters. -/
def State.atMatch (s : State κ) (rest : Text) (length : Nat) : State κ :=
  { s with
    fullMatch := decide ((firstLine rest).content.length ≤ length)
    lineBreakFollows := (rest.drop length).head?.any isLineBreak }

/-- The stream behind a match, and the token made of it. -/
def accept (lexer : Lexer κ) (s : Stream κ) (c : Candidate κ) : Token κ × Stream κ :=
  let raw := s.rest.take c.length
  let lexeme := c.lexeme.getD raw
  let (state, emit) := c.rule.action (s.state.beforeMatch.atMatch s.rest c.length) lexeme
  let token := {
    kind := c.rule.kind, lexeme, raw
    start := s.position, stop := s.position + byteSize raw
    line := state.line, column := state.column
    file := lexer.file, suppressed := emit = .skip }
  let state := state.advance raw
  let state := if emit = .token then { state with previous := some c.rule.kind } else state
  (token, { s with rest := s.rest.drop c.length, position := token.stop, state })

/-- One match, whether or not its token is to be shown. -/
def step (lexer : Lexer κ) (s : Stream κ) : Except Failure (Token κ × Stream κ) :=
  match select lexer.grammar.rules (lexer.window s.rest) s.state.beforeMatch with
  | .ok c => .ok (lexer.accept s c)
  | .error message => .error ⟨message, s.state.line, s.state.column, lexer.file⟩

def endToken (lexer : Lexer κ) (s : Stream κ) : Token κ where
  kind := lexer.grammar.eof
  lexeme := []
  raw := []
  start := s.position
  stop := s.position
  line := s.state.line
  column := s.state.column
  file := lexer.file

def nextWithin (lexer : Lexer κ) : Nat → Stream κ → Option (Item κ) × Stream κ
  | 0, s => (none, s)
  | fuel + 1, s =>
    if s.finished then (none, s)
    else if s.rest.isEmpty then (some (.token (lexer.endToken s)), { s with finished := true })
    else
      match lexer.step s with
      | .error f => (some (.failure f), { s with finished := true, state := s.state.beforeMatch })
      | .ok (token, s) =>
        if token.suppressed && !lexer.options.keepSuppressed then nextWithin lexer fuel s
        else (some (.token token), s)

def next (lexer : Lexer κ) (s : Stream κ) : Option (Item κ) × Stream κ :=
  lexer.nextWithin (s.rest.length + 1) s

/-- The next item, without moving on. -/
def peek (lexer : Lexer κ) (s : Stream κ) : Option (Item κ) := (lexer.next s).1

def itemsWithin (lexer : Lexer κ) : Nat → Stream κ → List (Item κ)
  | 0, _ => []
  | fuel + 1, s =>
    match lexer.next s with
    | (some item, s) => item :: itemsWithin lexer fuel s
    | (none, _) => []

def items (lexer : Lexer κ) (s : Stream κ) : List (Item κ) := lexer.itemsWithin (s.rest.length + 1) s

def split : List (Item κ) → List (Token κ) × Option Failure
  | [] => ([], none)
  | .token t :: rest => (t :: (split rest).1, (split rest).2)
  | .failure f :: _ => ([], some f)

def tokenize (lexer : Lexer κ) (s : Stream κ) : Except Failure (List (Token κ)) :=
  match split (lexer.items s) with
  | (tokens, none) => .ok tokens
  | (_, some f) => .error f

end Lexer

end Netlist
