import Netlist.Expression.Machine

/-!
The grammar of expressions as a relation between a text, the tree read from its start and the
rest behind it, and the value of a tree. Neither knows of stacks: the tree is read by the
precedence of its operators, and its value comes from the left to the right, each operation
after its operands.

Tokens are read as long as possible, with ASCII white space in front of them. Where an operator
may stand the names of functions come before the spellings that are built in.
-/
namespace Netlist

inductive Connective where
  | builtin (op : BinaryOperator)
  | named (f : Function)

namespace Connective

def operation : Connective → Operation
  | builtin op => .binary op
  | named f => .named f

def precedence : Connective → Nat
  | builtin op => op.precedence
  | named _ => Precedence.power

end Connective

/-- What an expression says. A call keeps its arguments as trees, a capture as texts. -/
inductive Tree where
  | literal (v : Float)
  | parameter (name : Text)
  | reference (arguments : List Text)
  | capture (name : Text) (arguments : List Text)
  | call (name : Text) (arguments : List Tree)
  | sign (op : UnaryOperator) (operand : Tree)
  | binary (op : Connective) (left right : Tree)
  | conditional (condition consequence otherwise : Tree)

namespace Resolver
variable {σ : Type}

def Offers (r : Resolver σ) (f : Function) : Prop := (∃ name, r.function? name = some f) ∨ f ∈ r.operators

def callee (r : Resolver σ) (name : Text) : Callee :=
  match r.function? name with
  | some f => .function f
  | none =>
    match Builtin.ofName? name with
    | some f => .builtin f
    | none => .unknown name

def announce (r : Resolver σ) (name : Text) : Eval σ Unit :=
  match r.callee name with
  | .builtin _ => r.note name
  | _ => return

def invoke (r : Resolver σ) (expression : Text) (callee : Callee) (arguments : List Float) : Eval σ Float :=
  match callee with
  | .function f => r.call f (.values arguments)
  | .builtin f =>
    if arguments.length = f.argumentCount then return f.apply (arguments.getD 0 0) (arguments.getD 1 0)
    else Eval.raise (.arity f.name (Nat.toDigits 10 f.argumentCount) arguments.length)
  | .unknown name => r.unknown name expression

def invokeRaw (r : Resolver σ) (expression name : Text) (arguments : List Text) : Eval σ Float :=
  match r.function? name with
  | some f => r.call f (.raw arguments)
  | none => r.unknown name expression

def refer (r : Resolver σ) (expression : Text) (arguments : List Text) : Eval σ Float :=
  match r.function? ['@'] with
  | some f =>
    if f.isRaw then r.call f (.raw arguments)
    else Eval.raise (.function ['@'] (chars "reference lookups take raw arguments"))
  | none => r.unknown ['@'] expression

/-- The value of a connective. A power is what the function `pow` makes of it, unless that takes texts. -/
def combine (r : Resolver σ) (op : Connective) (a b : Float) : Eval σ Float :=
  match op with
  | .builtin .power =>
    match r.function? (chars "pow") with
    | some f => if f.isRaw then return a.pow b else r.call f (.values [a, b])
    | none => return a.pow b
  | .builtin op => return op.apply a b
  | .named f => r.call f (.values [a, b])

end Resolver

namespace Tree
variable {σ : Type}

mutual
/-- The value of a tree. Operands come first, from left to right; both branches of a conditional
are evaluated. -/
def eval (r : Resolver σ) (expression : Text) : Tree → Eval σ Float
  | literal v => return v
  | parameter name => r.parameter name expression
  | reference arguments => r.refer expression arguments
  | capture name arguments => r.invokeRaw expression name arguments
  | call name arguments => do
    r.announce name
    r.invoke expression (r.callee name) (← evalAll r expression arguments)
  | sign op operand => return op.apply (← operand.eval r expression)
  | binary op left right => do
    let a ← left.eval r expression
    r.combine op a (← right.eval r expression)
  | conditional condition consequence otherwise => do
    let c ← condition.eval r expression
    let a ← consequence.eval r expression
    let b ← otherwise.eval r expression
    return if c != 0 then a else b
def evalAll (r : Resolver σ) (expression : Text) : List Tree → Eval σ (List Float)
  | [] => return []
  | e :: rest => do
    let v ← e.eval r expression
    return v :: (← evalAll r expression rest)
end

theorem evalAll_append (r : Resolver σ) (expression : Text) (es fs : List Tree) :
    evalAll r expression (es ++ fs) = do
      let vs ← evalAll r expression es
      let ws ← evalAll r expression fs
      return vs ++ ws := by
  induction es with
  | nil => simp [evalAll]
  | cons first rest ih => simp [evalAll, ih]

theorem evalAll_concat (r : Resolver σ) (expression : Text) (es : List Tree) (e : Tree) :
    evalAll r expression (es ++ [e]) = do
      let vs ← evalAll r expression es
      return vs ++ [← e.eval r expression] := by
  simp [evalAll_append, evalAll]

end Tree

/-- What the reading of a text depends on: which names call functions over texts, and the functions
that are operators. -/
structure Vocabulary where
  takesTexts : Text → Bool
  operators : List Function

def Resolver.vocabulary {σ : Type} (r : Resolver σ) : Vocabulary where
  takesTexts name := (r.function? name).any Function.isRaw
  operators := r.operators

def skip (t : Text) : Text := t.dropWhile isAsciiSpace

def isNumeralStart (c : Char) : Bool := c.isDigit || c == '.'

def sign? (t : Text) : Option (UnaryOperator × Text) :=
  match skip t with
  | '+' :: rest => some (.plus, rest)
  | '-' :: rest => some (.negate, rest)
  | '!' :: rest => some (.not, rest)
  | _ => none

def identifier? (t : Text) : Option (Text × Text) :=
  if (skip t).head?.any isIdentifierStart then
    some ((skip t).takeWhile isIdentifierPart, (skip t).dropWhile isIdentifierPart)
  else none

def callHead? (t : Text) : Option (Text × Text) :=
  match identifier? t with
  | some (name, rest) =>
    match skip rest with
    | '(' :: rest => some (name, rest)
    | _ => none
  | none => none

def reference? (t : Text) : Option (List Text × Text) :=
  match skip t with
  | '@' :: rest =>
    let name := rest.takeWhile isIdentifierPart
    if name.isEmpty then none
    else
      match rest.dropWhile isIdentifierPart with
      | '[' :: inner =>
        match inner.dropWhile (· != ']') with
        | _ :: rest => some ([name, trim (inner.takeWhile (· != ']'))], rest)
        | [] => none
      | rest => some ([name], rest)
  | _ => none

namespace Vocabulary

def Delimits (w : Vocabulary) (c : Char) (t rest : Text) : Prop :=
  longestOperator? w.operators (skip t) = none ∧ skip t = c :: rest

def connective? (w : Vocabulary) (t : Text) : Option (Connective × Text) :=
  match longestOperator? w.operators (skip t) with
  | some (f, rest) => some (.named f, rest)
  | none => (BinaryOperator.read? (skip t)).map fun (op, rest) => (.builtin op, rest)

end Vocabulary

/-- What the grammar derives: an expression whose operators outside of parentheses bind at least
as tightly as a precedence, or a call up to the end of an argument. -/
inductive Symbol where
  | level (n : Nat)
  | call

namespace Symbol

abbrev primary : Symbol := level (Precedence.power + 1)

abbrev power : Symbol := level Precedence.power

abbrev signed : Symbol := level Precedence.sign

abbrev expression : Symbol := level Precedence.conditional

end Symbol

/-- `Derives w inCall s t e rest` says that `t` starts with the tree `e` of the symbol `s`, and goes
on with `rest`. Inside a call the comma is no decimal mark. -/
inductive Derives (w : Vocabulary) : Bool → Symbol → Text → Tree → Text → Prop
  | literal {inCall t v rest} (start : (skip t).head?.any isNumeralStart = true)
      (read : Number.literal (!inCall) (skip t) = .found v rest) :
      Derives w inCall .primary t (.literal v) rest
  | parameter {inCall t name rest} (read : identifier? t = some (name, rest)) (alone : callHead? t = none) :
      Derives w inCall .primary t (.parameter name) rest
  | reference {inCall t arguments rest} (read : reference? t = some (arguments, rest)) :
      Derives w inCall .primary t (.reference arguments) rest
  | group {inCall t t₁ t₂ e rest} (opening : skip t = '(' :: t₁) (body : Derives w inCall .expression t₁ e t₂)
      (closing : w.Delimits ')' t₂ rest) : Derives w inCall .primary t e rest
  | capture {inCall t name t₁ arguments rest} (head : callHead? t = some (name, t₁))
      (texts : w.takesTexts name = true) (read : captureArguments 0 false [] [] t₁ = some (arguments, rest)) :
      Derives w inCall .primary t (.capture name arguments) rest
  | emptyCall {inCall t name t₁ rest} (head : callHead? t = some (name, t₁)) (values : w.takesTexts name = false)
      (closing : skip t₁ = ')' :: rest) : Derives w inCall .primary t (.call name []) rest
  | firstArgument {inCall t name t₁ e rest} (head : callHead? t = some (name, t₁))
      (values : w.takesTexts name = false) (argument : Derives w true .expression t₁ e rest) :
      Derives w inCall .call t (.call name [e]) rest
  | nextArgument {inCall t name es t₁ t₂ e rest} (before : Derives w inCall .call t (.call name es) t₁)
      (comma : w.Delimits ',' t₁ t₂) (argument : Derives w true .expression t₂ e rest) :
      Derives w inCall .call t (.call name (es ++ [e])) rest
  | closeCall {inCall t name es t₁ rest} (before : Derives w inCall .call t (.call name es) t₁)
      (closing : w.Delimits ')' t₁ rest) : Derives w inCall .primary t (.call name es) rest
  | lift {inCall n t e rest} (tighter : Derives w inCall (.level (n + 1)) t e rest) :
      Derives w inCall (.level n) t e rest
  | connective {inCall t t₁ t₂ op a b rest} (left : Derives w inCall (.level op.precedence) t a t₁)
      (read : w.connective? t₁ = some (op, t₂)) (right : Derives w inCall (.level (op.precedence + 1)) t₂ b rest) :
      Derives w inCall (.level op.precedence) t (.binary op a b) rest
  | signedOperand {inCall t t₁ t₂ t₃ op s a b rest} (left : Derives w inCall .power t a t₁)
      (read : w.connective? t₁ = some (op, t₂)) (binds : op.precedence = Precedence.power) (signed : sign? t₂ = some (s, t₃))
      (right : Derives w inCall .signed t₃ b rest) :
      Derives w inCall .signed t (.binary op a (.sign s b)) rest
  | sign {inCall t t₁ s e rest} (signed : sign? t = some (s, t₁)) (operand : Derives w inCall .signed t₁ e rest) :
      Derives w inCall .signed t (.sign s e) rest
  | conditional {inCall t t₁ t₂ t₃ t₄ c a b rest} (condition : Derives w inCall (.level (Precedence.conditional + 1)) t c t₁)
      (question : w.Delimits '?' t₁ t₂) (consequence : Derives w inCall .expression t₂ a t₃)
      (colon : w.Delimits ':' t₃ t₄) (otherwise : Derives w inCall .expression t₄ b rest) :
      Derives w inCall .expression t (.conditional c a b) rest

def Vocabulary.Reads (w : Vocabulary) (t : Text) (e : Tree) : Prop :=
  ∃ rest, Derives w false .expression t e rest ∧ skip rest = []

end Netlist
