import Netlist.Text.Basic

/-!
References to internal patterns. In the text of a pattern, `<NAME>` stands for the pattern
defined under that name; a name has capital letters, digits and underscores and does not start
with a digit. Expansion replaces every reference by its definition in a group, expanded the same
way, and refuses chains of references that are longer than `maxNesting`.
-/
namespace Netlist.Pattern

inductive Piece where
  | plain (t : Text)
  | reference (name : Text)
  deriving DecidableEq, Repr

def isNameStart (c : Char) : Bool := c.isUpper || c == '_'

def isNamePart (c : Char) : Bool := isNameStart c || c.isDigit

/-- The pieces of a text. The second argument holds the characters since an angle bracket that
may still open a reference, in reverse order. -/
def piecesFrom : Text → Option Text → List Piece
  | [], none => []
  | [], some held => [.plain ('<' :: held.reverse)]
  | c :: rest, none =>
    if c = '<' then piecesFrom rest (some []) else .plain [c] :: piecesFrom rest none
  | c :: rest, some held =>
    if c = '>' && !held.isEmpty then .reference held.reverse :: piecesFrom rest none
    else if (if held.isEmpty then isNameStart c else isNamePart c) then piecesFrom rest (some (c :: held))
    else
      .plain ('<' :: held.reverse) ::
        (if c = '<' then piecesFrom rest (some []) else .plain [c] :: piecesFrom rest none)

/-- The pieces of a text, in order. -/
def pieces (t : Text) : List Piece := piecesFrom t none

abbrev Definitions := List (Text × Text)

namespace Definitions

/-- The pattern defined under a name; later definitions replace earlier ones. -/
def get? (definitions : Definitions) (name : Text) : Option Text :=
  (definitions.reverse.find? (·.1 == name)).map (·.2)

end Definitions

inductive ExpansionError where
  | unknown (name : Text)
  | tooDeep
  deriving DecidableEq, Repr

/-- How many references may be nested in one another. -/
def maxNesting : Nat := 16

/-- The text of pieces with every reference expanded; `expandBody` expands a definition. -/
def expandPieces (definitions : Definitions) (expandBody : Text → Except ExpansionError Text) :
    List Piece → Except ExpansionError Text
  | [] => .ok []
  | .plain t :: rest => do
    return t ++ (← expandPieces definitions expandBody rest)
  | .reference name :: rest =>
    match definitions.get? name with
    | none => .error (.unknown name)
    | some body => do
      let inner ← expandBody body
      return chars "(?:" ++ inner ++ chars ")" ++ (← expandPieces definitions expandBody rest)

/-- Expansion with a number of levels left, this one included. -/
def expandWithin (definitions : Definitions) : Nat → Text → Except ExpansionError Text
  | 0, _ => .error .tooDeep
  | levels + 1, t => expandPieces definitions (expandWithin definitions levels) (pieces t)

def expand (definitions : Definitions) (t : Text) : Except ExpansionError Text :=
  expandWithin definitions (maxNesting + 1) t

end Netlist.Pattern
