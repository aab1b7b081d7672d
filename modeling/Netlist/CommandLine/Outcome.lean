import Netlist.CommandLine.Request
import Netlist.Configuration
import Netlist.Line.Logical
import Netlist.Spice.Value

/-!
Carrying out requests. A request that fails keeps what it has printed before.
-/
namespace Netlist.CommandLine

/-- What a request leads to: a text to print, and a failure if there is one. -/
structure Outcome where
  output : Text := []
  failure? : Option Failure := none

namespace Outcome

def failing (f : Failure) : Outcome := { failure? := some f }

def after (line : Text) (o : Outcome) : Outcome := { o with output := line ++ '\n' :: o.output }

end Outcome

abbrev Files := Text → Option Text

def Request.start (r : Request) (files : Files) : Except Failure Configuration :=
  match r.configuration with
  | none => .ok {}
  | some path =>
    match files path with
    | none => .error (.failed (some (.readConfiguration path)) .unreadable)
    | some t =>
      match Configuration.parse? t with
      | none => .error (.failed (some (.parseConfiguration path)) .malformed)
      | some c => .ok c

def readInput (files : Files) (path : Text) : Except Failure Text :=
  match files path with
  | some t => .ok t
  | none => .error (.failed (some (.readInput path)) .unreadable)

def lexerOptions (c : Configuration) (s : Settings) : Spice.Options :=
  { c.options with
    hasTitle := c.options.hasTitle || s.title
    keepComments := c.options.keepComments || s.keepComments
    busSyntax := c.options.busSyntax || s.bus
    window := s.window.getD c.options.window }

/-- A token as it is printed; suppressed ones are marked. -/
def tokenLine (token : Lexer.Token Spice.Kind) : Text :=
  if token.suppressed then '~' :: token.render Spice.Kind.name else token.render Spice.Kind.name

def printTokens (options : Spice.Options) (keepSuppressed : Bool) (path t : Text) : Outcome :=
  let lexer := Spice.lexer options (some path) keepSuppressed
  let (tokens, failure?) := Lexer.split (lexer.items { rest := t })
  { output := tokens.flatMap fun token => tokenLine token ++ ['\n']
    failure? := failure?.map fun f => .failed (some (.tokenize path)) (.lexing f) }

def printLines (t : Text) : Outcome :=
  { output := (logicalLines .netlist t).flatMap fun line =>
      Nat.toDigits 10 line.line ++ chars ": " ++ line.text ++ ['\n'] }

def printValues (scope : Scope) (world : World) : List Text → Outcome
  | [] => {}
  | expression :: rest =>
    match scope.evaluate none (Spice.bareExpression expression) world with
    | (.ok v, world) => (printValues scope world rest).after (Decimal.positional v)
    | (.error fault, _) => .failing (.ofFault (some (.evaluate expression)) fault)

def overridden (c : Configuration) (s : Settings) : Configuration :=
  let c := { c with dialect := s.dialect.getD c.dialect, seed := s.seed.or c.seed }
  s.parameters.foldl (fun c (name, t) => c.override name t) c

def Action.run (files : Files) (c : Configuration) : Action → Except Failure Outcome
  | .tokens settings input => do
    return printTokens (lexerOptions c settings) settings.suppressed input (← readInput files input)
  | .lines input => do return printLines (← readInput files input)
  | .evaluate settings expressions => do
    let s ← (overridden c settings).session
    return printValues s.scope s.world expressions

def Request.run (files : Files) (r : Request) : Outcome :=
  match r.start files >>= fun c => r.action.run files c with
  | .ok outcome => outcome
  | .error f => .failing f

end Netlist.CommandLine
