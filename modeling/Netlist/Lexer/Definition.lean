import Netlist.Lexer.Rule
import Netlist.Pattern.Reader
import Netlist.Pattern.Reference
import Netlist.Text.Quoted

/-!
Grammars in written form. A definition is a rule whose pattern is still text with references to
internal patterns; building a grammar expands and reads the patterns in the order of the rules,
and the first rule that cannot be built decides the error.
-/
namespace Netlist.Lexer
variable {κ : Type}

inductive Source (κ : Type) where
  | pattern (t : Text) (ignoreCase : Bool)
  | procedure (trigger : Text) (matcher : Matcher κ)

structure Definition (κ : Type) where
  name : Text
  kind : κ
  source : Source κ
  top : Bool := false
  applies : State κ → Bool := fun _ => true
  action : State κ → Text → State κ × Emit := fun s _ => (s, .token)

/-- Rules in written form, the internal patterns they refer to, and the kind of the last token. -/
structure Definitions (κ : Type) where
  patterns : Pattern.Definitions := []
  rules : List (Definition κ)
  eof : κ

inductive GrammarError where
  | unknownPattern (rule pattern : Text)
  | expansionTooDeep (rule : Text)
  | invalidPattern (rule : Text)
  deriving DecidableEq, Repr

namespace GrammarError

/-- The description of an error. The reason why a pattern is invalid is not part of it. -/
def message : GrammarError → Text
  | unknownPattern rule pattern =>
    chars "rule \x60" ++ rule ++ chars "\x60 references unknown internal pattern \x60<" ++ pattern ++ chars ">\x60"
  | expansionTooDeep rule => chars "internal pattern references in \x60" ++ rule ++ chars "\x60 nest too deeply"
  | invalidPattern rule => chars "invalid pattern for rule \x60" ++ rule ++ chars "\x60"

end GrammarError

namespace Definitions

/-- A pattern with its references expanded; an error names the rule that the pattern belongs to. -/
def expand (definitions : Definitions κ) (rule t : Text) : Except GrammarError Text :=
  match Pattern.expand definitions.patterns t with
  | .ok expanded => .ok expanded
  | .error (.unknown name) => .error (.unknownPattern rule name)
  | .error .tooDeep => .error (.expansionTooDeep rule)

/-- The pattern that the text of a rule stands for, tied to the start of the window. -/
def compile (definitions : Definitions κ) (rule t : Text) (ignoreCase : Bool) : Except GrammarError Pattern := do
  let expanded ← definitions.expand rule t
  match Pattern.parse? ignoreCase (chars "^(?:" ++ expanded ++ chars ")") with
  | some p => .ok p
  | none => .error (.invalidPattern rule)

def buildRule (definitions : Definitions κ) (d : Definition κ) : Except GrammarError (Rule κ) := do
  let recognizer ← match d.source with
    | .pattern t ignoreCase => Recognizer.pattern <$> definitions.compile d.name t ignoreCase
    | .procedure trigger matcher =>
      (Recognizer.procedure · matcher) <$> definitions.compile d.name trigger false
  return ⟨d.name, d.kind, recognizer, d.top, d.applies, d.action⟩

def build (definitions : Definitions κ) : Except GrammarError (Grammar κ) := do
  return ⟨← definitions.rules.mapM definitions.buildRule, definitions.eof⟩

end Definitions

def Definition.describe (kindName : κ → Text) (d : Definition κ) : Text :=
  let (label, field, pattern) := match d.source with
    | .pattern t _ => (chars "StaticRule", chars "pattern", t)
    | .procedure trigger _ => (chars "DynamicRule", chars "prefix", trigger)
  label ++ chars " \x7b name: " ++ quoted d.name ++ chars ", kind: " ++ kindName d.kind ++ chars ", " ++
    field ++ chars ": " ++ quoted pattern ++ chars ", top: " ++ chars (if d.top then "true" else "false") ++
    chars ", .. \x7d"

def Definitions.describe (kindName : κ → Text) (definitions : Definitions κ) : Text :=
  chars "Grammar \x7b rules: [" ++ joined (chars ", ") (definitions.rules.map (Definition.describe kindName)) ++
    chars "], eof: " ++ kindName definitions.eof ++ chars " \x7d"

end Netlist.Lexer
