import Netlist.Text.Quoted

/-!
Tokens. The lexeme is the matched text, which a rule with a procedural matcher may have changed;
the raw text is what stands in the source at the token's span.
-/
namespace Netlist.Lexer

/-- A token with its place: the byte range in the source, and the line and column, counted from
1 and in characters, of its first character. -/
structure Token (κ : Type) where
  kind : κ
  lexeme : Text
  raw : Text
  start : Nat
  stop : Nat
  line : Nat
  column : Nat
  file : Option Text := none
  suppressed : Bool := false
  deriving DecidableEq, Repr

namespace Token
variable {κ : Type}

/-- The token as one line of text: place, kind and quoted lexeme. -/
def render (kindName : κ → Text) (token : Token κ) : Text :=
  let place := Nat.toDigits 10 token.line ++ ':' :: Nat.toDigits 10 token.column
  (match token.file with | some file => file ++ [':'] | none => []) ++
    place ++ ' ' :: kindName token.kind ++ ' ' :: quoted token.lexeme

end Token

end Netlist.Lexer
