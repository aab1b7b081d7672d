import Netlist.Lexer.Rule

/-!
Selection of a rule at one position. Candidates are the applicable rules that match at least one
character. A candidate on top beats all others; within the same rank the longer match wins, and
of equally long ones the rule declared earlier. A procedure that fails decides only if no top
rule matches, and then the first one that failed does.
-/
namespace Netlist.Lexer
variable {κ : Type}

/-- A rule that matches, with the length of the match in characters and the lexeme, if the rule
sets one. -/
structure Candidate (κ : Type) where
  rule : Rule κ
  length : Nat
  lexeme : Option Text

/-- What one rule makes of a window: a candidate, no match, or a failure with its message. -/
def Rule.attempt (rule : Rule κ) (window : Text) (s : State κ) : Except Text (Option (Candidate κ)) :=
  if !rule.applies s then .ok none
  else
    match rule.recognizer with
    | .pattern p =>
      .ok (((p.findEnd? window).filter (0 < ·)).map fun length => ⟨rule, length, none⟩)
    | .procedure trigger matcher =>
      if (trigger.findEnd? window).isNone then .ok none
      else
        match matcher window s with
        | .error message => .error message
        | .ok found =>
          .ok ((found.filter (0 < ·.length)).map fun capture => ⟨rule, capture.length, some capture.lexeme⟩)

def Candidate.beats (c best : Candidate κ) : Bool :=
  (c.rule.top && !best.rule.top) || (c.rule.top == best.rule.top && decide (best.length < c.length))

structure Standing (κ : Type) where
  best : Option (Candidate κ) := none
  failure : Option Text := none

def Standing.update (standing : Standing κ) (outcome : Except Text (Option (Candidate κ))) : Standing κ :=
  match outcome with
  | .error message => { standing with failure := standing.failure.or (some message) }
  | .ok none => standing
  | .ok (some c) =>
    if standing.best.all c.beats then { standing with best := some c } else standing

def standing (rules : List (Rule κ)) (window : Text) (s : State κ) : Standing κ :=
  rules.foldl (fun standing rule => standing.update (rule.attempt window s)) {}

/-- How many characters of unmatched text an error quotes. -/
def snippetLength : Nat := 24

def noMatchMessage (window : Text) : Text :=
  chars "no rule matches \x60" ++ (window.takeWhile (!isLineBreak ·)).take snippetLength ++ chars "\x60"

def select (rules : List (Rule κ)) (window : Text) (s : State κ) : Except Text (Candidate κ) :=
  let result := standing rules window s
  match result.best, result.failure with
  | some best, none => .ok best
  | some best, some message => if best.rule.top then .ok best else .error message
  | none, some message => .error message
  | none, none => .error (noMatchMessage window)

end Netlist.Lexer
