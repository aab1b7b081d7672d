import Netlist.Text.Basic

/-!
The kinds of tokens of a netlist.
-/
namespace Netlist.Spice

inductive Kind where
  | whitespace
  | newline
  | continuation
  | comment
  | title
  /-- A directive such as `.param` that has no kind of its own. -/
  | dot
  | end
  | ends
  | endl
  | if
  | elseIf
  | else
  | endIf
  | value
  | percent
  | word
  | identifier
  /-- A reference to a device property such as `@m1[gm]`. -/
  | reference
  | doubleQuoted
  | singleQuoted
  | expressionBracket
  /-- The condition of `.if` or `.elseif` in parentheses. -/
  | booleanExpression
  | delimiter
  | comma
  | equal
  /-- A run of operator characters. -/
  | operator
  /-- A range of a bus behind a name, such as `<0:3>`. -/
  | busSuffix
  /-- The repetition in front of a bus, such as `<*3>`. -/
  | busPrefix
  | blockCommentStart
  | blockCommentEnd
  | blockCommentContent
  | eof
  deriving DecidableEq, Repr

def Kind.name (k : Kind) : Text :=
  chars <| match k with
  | whitespace => "Whitespace"
  | newline => "Newline"
  | continuation => "Continuation"
  | comment => "Comment"
  | title => "Title"
  | dot => "Dot"
  | .end => "End"
  | ends => "Ends"
  | endl => "Endl"
  | .if => "If"
  | elseIf => "ElseIf"
  | .else => "Else"
  | endIf => "EndIf"
  | value => "Value"
  | percent => "Percent"
  | word => "Word"
  | identifier => "Identifier"
  | reference => "Reference"
  | doubleQuoted => "DoubleQuoted"
  | singleQuoted => "SingleQuoted"
  | expressionBracket => "ExpressionBracket"
  | booleanExpression => "BooleanExpression"
  | delimiter => "Delimiter"
  | comma => "Comma"
  | equal => "Equal"
  | operator => "Operator"
  | busSuffix => "BusSuffix"
  | busPrefix => "BusPrefix"
  | blockCommentStart => "BlockCommentStart"
  | blockCommentEnd => "BlockCommentEnd"
  | blockCommentContent => "BlockCommentContent"
  | eof => "Eof"

end Netlist.Spice
