import Netlist.Lexer.Balance
import Netlist.Lexer.Run
import Netlist.Spice.Kind
import Netlist.Spice.Patterns

/-!
The rules of netlists. Their order decides between matches of equal length, so keywords stand
before other directives, and numbers and names before identifiers.
-/
namespace Netlist.Spice

open Lexer

structure Options where
  hasTitle : Bool := false
  keepComments : Bool := false
  /-- Whether `$` starts a comment. -/
  hspiceComments : Bool := true
  /-- Whether `;` starts a comment. -/
  pspiceComments : Bool := true
  /-- Whether `#com` and `#endcom` enclose a comment. -/
  blockComments : Bool := true
  busSyntax : Bool := false
  window : Window := .logical
  deriving DecidableEq, Repr

/-- The capture of a balanced group. Its lexeme keeps the delimiters and loses continuation
markers; a group that does not close inside the window is an error. -/
def balanced (opening closing : Char) : Matcher Kind := fun window _ =>
  match balancedLength? opening closing 0 window with
  | some length => .ok (some ⟨length, withoutContinuations (window.take length)⟩)
  | none => .error (chars "unbalanced \x60" ++ opening :: chars "\x60")

def rule (name : String) (kind : Kind) (p : Pattern) : Rule Kind where
  name := chars name
  kind
  recognizer := .pattern p.atStart

def groupRule (name : String) (kind : Kind) (opening closing : Char)
    (applies : State Kind → Bool) : Rule Kind where
  name := chars name
  kind
  recognizer := .procedure (.atStart (.set (.single opening))) (balanced opening closing)
  applies

/-- The rule with its letters in either case. -/
def keywordRule (name : String) (kind : Kind) (p : Pattern) : Rule Kind := rule name kind p.ignoringCase

private def silent : State Kind → Text → State Kind × Emit := fun s _ => (s, .skip)

/-- The action of comments: tokens if they are kept, otherwise silent. -/
def commentAction (o : Options) : State Kind → Text → State Kind × Emit := fun s _ =>
  (s, if o.keepComments then .token else .skip)

/-- The action of the marks around a block comment, which set its flag. -/
def blockAction (o : Options) (inside : Bool) : State Kind → Text → State Kind × Emit := fun s _ =>
  ({ s with inCommentBlock := inside }, if o.keepComments then .token else .skip)

def separators : List (Rule Kind) := [
  { rule "whitespace" .whitespace someBlanks with top := true, action := silent },
  { rule "next_line_continuation" .continuation nextLineMarker with top := true, action := silent },
  { rule "current_line_continuation" .continuation currentLineMarker with top := true, action := silent }]

/-- Expressions in braces, and conditions in parentheses directly behind `.if` and `.elseif`. -/
def groups : List (Rule Kind) := [
  groupRule "expression_bracket" .expressionBracket '\x7b' '\x7d' (!·.inCommentBlock),
  groupRule "boolean_expression" .booleanExpression '(' ')' fun s =>
    !s.inCommentBlock && s.previousIs [.if, .elseIf]]

/-- The title, which takes the first line as long as no token has been emitted. -/
def titleRule : Rule Kind :=
  { rule "title" .title (Pattern.oneOrMore (Pattern.noneOf "\r\n")) with
    top := true
    applies := fun s => s.line == 1 && s.previous.isNone }

def directives : List (Rule Kind) := [
  keywordRule "end" .end (keyword ".end"), keywordRule "ends" .ends (keyword ".ends"),
  keywordRule "endl" .endl (keyword ".endl"), keywordRule "if" .if (keyword ".if"),
  keywordRule "elseif" .elseIf (keyword ".elseif"), keywordRule "else" .else (keyword ".else"),
  keywordRule "endif" .endIf (keyword ".endif"),
  keywordRule "dot" .dot (.seq (Pattern.literally ".") plainName)]

def numbers : List (Rule Kind) := [
  keywordRule "value" .value number,
  keywordRule "percent" .percent (.seq number (Pattern.literally "%"))]

/-- Comments up to the end of the line. A dollar sign starts one only behind a blank or at the
start of a line, so that names may hold it. -/
def lineComments (o : Options) : List (Rule Kind) :=
  let comment (name : String) (p : Pattern) : Rule Kind :=
    { rule name .comment p with action := commentAction o }
  { comment "line_comment" (.seq (Pattern.literally "*") restOfLine) with applies := (·.startOfLine) } ::
  (if o.hspiceComments then [
    { comment "hspice_comment" (Pattern.inOrder [someBlanks, Pattern.literally "$", restOfLine]) with top := true },
    { comment "hspice_line_comment" (.seq (Pattern.literally "$") restOfLine) with applies := (·.startOfLine) }]
  else []) ++
  (if o.pspiceComments then [comment "pspice_comment" (.seq (Pattern.literally ";") restOfLine)] else [])

/-- Block comments. Inside one, the rules on top leave nothing to others but line breaks. -/
def blockComments (o : Options) : List (Rule Kind) :=
  if o.blockComments then [
    { keywordRule "block_comment_start" .blockCommentStart (keyword "#com") with
      applies := (!·.inCommentBlock), action := blockAction o true },
    { keywordRule "block_comment_end" .blockCommentEnd (keyword "#endcom") with
      top := true, applies := (·.inCommentBlock), action := blockAction o false },
    { rule "block_comment_content" .blockCommentContent blockContent with
      top := true, applies := (·.inCommentBlock), action := commentAction o }]
  else []

def names : List (Rule Kind) := [
  rule "double_quoted" .doubleQuoted doubleQuoted, rule "single_quoted" .singleQuoted singleQuoted,
  keywordRule "reference" .reference reference, keywordRule "word" .word plainName,
  rule "identifier" .identifier identifier]

def punctuation : List (Rule Kind) := [
  rule "delimiter" .delimiter (Pattern.anyOf "()[]"), rule "comma" .comma (Pattern.literally ","),
  rule "equal" .equal (Pattern.literally "="),
  rule "operator" .operator (Pattern.oneOrMore (Pattern.anyOf "*/^+-<>!=&|?:%"))]

def buses (o : Options) : List (Rule Kind) :=
  if o.busSyntax then [
    { rule "bus_suffix" .busSuffix busSuffix with
      applies := (·.previousIs [.word, .identifier, .busSuffix]) },
    rule "bus_prefix" .busPrefix busPrefix]
  else []

/-- Line breaks, which are silent inside a block comment. -/
def newlineRule : Rule Kind :=
  { rule "newline" .newline lineBreak with
    action := fun s _ => (s, if s.inCommentBlock then .skip else .token) }

def grammar (o : Options) : Grammar Kind where
  rules := separators ++ groups ++ (if o.hasTitle then [titleRule] else []) ++ directives ++ numbers ++
    lineComments o ++ blockComments o ++ names ++ punctuation ++ buses o ++ [newlineRule]
  eof := .eof

/-- The lexer that options select; suppressed tokens are shown on demand, and tokens carry the
name of the file they come from. -/
def lexer (o : Options) (file : Option Text) (keepSuppressed : Bool) : Lexer Kind where
  grammar := grammar o
  options := { window := o.window, continuation := .netlist, keepSuppressed }
  file

end Netlist.Spice
