import Netlist.Expression.Operator
import Netlist.Number.Literal

/-!
Evaluation of expressions in a single scan from left to right, with a stack of values and a stack
of operations. An operation is applied as soon as one that binds less tightly, a closing
delimiter or the end of the text follows. Whether an operand or an operator is expected decides
how `+`, `-` and `(` are read.

The machine asks a `Resolver` for the meaning of names, so the same scan evaluates an expression
and lists the names it refers to.
-/
namespace Netlist

/-- What names mean to an evaluation. -/
structure Resolver (σ : Type) where
  /-- The value of a parameter that an expression refers to. -/
  parameter : (name expression : Text) → Eval σ Float
  function? : Text → Option Function
  operators : List Function
  call : Function → Arguments → Eval σ Float
  /-- The value of a call of a function that is neither defined nor built in. -/
  unknown : (name expression : Text) → Eval σ Float
  /-- Takes notice of a built-in function. -/
  note : Text → Eval σ Unit

/-- An evaluation in progress: the whole expression, the part still to be read, and the stacks,
topmost items first. -/
structure Machine where
  expression : Text
  rest : Text
  values : List Float := []
  stack : List Operation := []
  expectOperator : Bool := false

def isIdentifierStart (c : Char) : Bool := c.isAlpha || c == '_'

def isIdentifierPart (c : Char) : Bool := c.isAlphanum || c == '_' || c == '.' || c == '$' || c == '#'

/-- The texts of arguments up to the parenthesis that closes a call, and the rest behind it.
Parentheses nest, and text in double quotes is passed over. -/
def captureArguments (depth : Nat) (inQuotes : Bool) (current : Text) (done : List Text) :
    Text → Option (List Text × Text)
  | [] => none
  | c :: rest =>
    if inQuotes then captureArguments depth (c != '"') (c :: current) done rest
    else if c = '"' then captureArguments depth true (c :: current) done rest
    else if c = '(' then captureArguments (depth + 1) false (c :: current) done rest
    else if c = ')' then
      if depth = 0 then
        let last := trim current.reverse
        some (if done.isEmpty && last.isEmpty then [] else (last :: done).reverse, rest)
      else captureArguments (depth - 1) false (c :: current) done rest
    else if c = ',' && depth = 0 then captureArguments depth false [] (trim current.reverse :: done) rest
    else captureArguments depth false (c :: current) done rest

/-- What follows a name at the start of a text, up to the case of ASCII letters. -/
def afterName? : Text → Text → Option Text
  | [], t => some t
  | _ :: _, [] => none
  | n :: name, c :: rest => if n.toLower = c.toLower then afterName? name rest else none

/-- What follows an operator defined by a function, if the text starts with it. A name that ends
like an identifier is no operator inside a longer identifier. -/
def afterOperator? (f : Function) (t : Text) : Option Text :=
  (afterName? f.name t).filter fun rest =>
    !(f.name.getLast?.any isIdentifierPart && rest.head?.any isIdentifierPart)

/-- The operator with the longest name that a text starts with, and the rest. -/
def longestOperator? (operators : List Function) (t : Text) : Option (Function × Text) :=
  operators.foldl (fun best f =>
    match afterOperator? f t with
    | none => best
    | some rest =>
      if best.all fun (g, _) => decide (byteSize g.name < byteSize f.name) then some (f, rest) else best) none

namespace Machine
variable {σ : Type}

def offset (m : Machine) : Nat := byteSize m.expression - byteSize m.rest

/-- The error at a text that cannot stand where it stands. -/
def unexpected (m : Machine) : EvalError :=
  .unexpectedText (m.rest.takeWhile (!isWhiteSpace ·)) m.offset m.expression

/-- The machine with a value on its stack, which an operator has to follow. -/
def push (m : Machine) (v : Float) : Machine := { m with values := v :: m.values, expectOperator := true }

/-- The machine with an operation on its stack, which an operand has to follow. -/
def await (m : Machine) (op : Operation) : Machine := { m with stack := op :: m.stack, expectOperator := false }

/-- The values after an operation is applied to the topmost ones. A power is what the function
`pow` makes of it, where there is one. -/
def apply (r : Resolver σ) (expression : Text) (op : Operation) (values : List Float) : Eval σ (List Float) :=
  match op, values with
  | .unary op, x :: values => return op.apply x :: values
  | .binary .power, b :: a :: values => do
    match r.function? (chars "pow") with
    | some f => if f.isRaw then return a.pow b :: values else return (← r.call f (.values [a, b])) :: values
    | none => return a.pow b :: values
  | .binary op, b :: a :: values => return op.apply a b :: values
  | .named f, b :: a :: values => return (← r.call f (.values [a, b])) :: values
  | .conditional, otherwise :: consequence :: condition :: values =>
    return (if condition != 0 then consequence else otherwise) :: values
  | .parenthesis, _ | .call .., _ => Eval.raise (.unbalancedParentheses expression)
  | .question, _ => Eval.raise (.unmatchedConditional expression)
  | _, _ => Eval.raise (.stackUnderflow expression)

/-- Applies operations from the top of the stack as long as they meet a condition. -/
def unwind (r : Resolver σ) (expression : Text) (p : Operation → Bool) :
    List Operation → List Float → Eval σ (List Operation × List Float)
  | [], values => return ([], values)
  | op :: stack, values =>
    if p op then do unwind r expression p stack (← apply r expression op values)
    else return (op :: stack, values)

def reduceWhile (r : Resolver σ) (m : Machine) (p : Operation → Bool) : Eval σ Machine := do
  let (stack, values) ← unwind r m.expression p m.stack m.values
  return { m with stack, values }

/-- Applies the operations that bind at least as tightly as an operator to come. -/
def reduce (r : Resolver σ) (m : Machine) (precedence : Nat) : Eval σ Machine :=
  m.reduceWhile r fun op => op.precedence?.any fun p => decide (precedence ≤ p)

/-- Applies all operations above the innermost open group. -/
def reduceGroup (r : Resolver σ) (m : Machine) : Eval σ Machine := m.reduceWhile r (·.precedence?.isSome)

def finishCall (r : Resolver σ) (m : Machine) (callee : Callee) (base : Nat) : Eval σ Machine := do
  if m.values.length < base then Eval.raise (.stackUnderflow m.expression)
  else
    let count := m.values.length - base
    let arguments := (m.values.take count).reverse
    let m := { m with values := m.values.drop count }
    match callee with
    | .function f => return m.push (← r.call f (.values arguments))
    | .builtin f =>
      if count = f.argumentCount then return m.push (f.apply (arguments.getD 0 0) (arguments.getD 1 0))
      else Eval.raise (.arity f.name (Nat.toDigits 10 f.argumentCount) count)
    | .unknown name => return m.push (← r.unknown name m.expression)

/-- Reads a closing parenthesis behind an operand; `m` stands behind it. -/
def close (r : Resolver σ) (m : Machine) : Eval σ Machine := do
  let m ← m.reduceGroup r
  match m.stack with
  | .parenthesis :: stack => return { m with stack }
  | .call callee base :: stack => finishCall r { m with stack } callee base
  | .question :: _ => Eval.raise (.unmatchedConditional m.expression)
  | _ => Eval.raise (.unbalancedParentheses m.expression)

/-- Reads a comma, which separates arguments of a call; `m` stands behind it, `offset` is its own. -/
def comma (r : Resolver σ) (m : Machine) (offset : Nat) : Eval σ Machine := do
  let m ← m.reduceGroup r
  match m.stack with
  | .call .. :: _ => return { m with expectOperator := false }
  | .question :: _ => Eval.raise (.unmatchedConditional m.expression)
  | _ => Eval.raise (.unexpectedText [','] offset m.expression)

/-- Reads a colon, which completes the innermost question mark; `m` stands behind it. -/
def colon (r : Resolver σ) (m : Machine) : Eval σ Machine := do
  let m ← m.reduceGroup r
  match m.stack with
  | .question :: stack => return { m with stack }.await .conditional
  | _ => Eval.raise (.unmatchedConditional m.expression)

/-- Starts a call; `m` stands behind its opening parenthesis. A function over texts is called at
once. -/
def startCall (r : Resolver σ) (m : Machine) (name : Text) : Eval σ Machine := do
  match r.function? name with
  | some f =>
    if f.isRaw then
      match captureArguments 0 false [] [] m.rest with
      | none => Eval.raise (.unbalancedParentheses m.expression)
      | some (arguments, rest) => return { m with rest }.push (← r.call f (.raw arguments))
    else return m.await (.call (.function f) m.values.length)
  | none =>
    match Builtin.ofName? name with
    | some f => do
      r.note name
      return m.await (.call (.builtin f) m.values.length)
    | none => return m.await (.call (.unknown name) m.values.length)

/-- Reads a reference `name[property]`; `m` stands behind its `@`. The function `@` gives its value. -/
def reference (r : Resolver σ) (m : Machine) : Eval σ Machine := do
  let name := m.rest.takeWhile isIdentifierPart
  if name.isEmpty then Eval.raise m.unexpected
  else
    let m := { m with rest := m.rest.dropWhile isIdentifierPart }
    let (arguments, m) ← match m.rest with
      | '[' :: inner =>
        match inner.dropWhile (· != ']') with
        | _ :: rest => pure ([name, trim (inner.takeWhile (· != ']'))], { m with rest })
        | [] => Eval.raise (.unexpectedText m.rest m.offset m.expression)
      | _ => pure ([name], m)
    match r.function? ['@'] with
    | some f =>
      if f.isRaw then return m.push (← r.call f (.raw arguments))
      else Eval.raise (.function ['@'] (chars "reference lookups take raw arguments"))
    | none => return m.push (← r.unknown ['@'] m.expression)

/-- Reads a number. Inside a call the comma separates arguments and is no decimal mark. -/
def numeral (m : Machine) : Eval σ Machine :=
  match Number.literal (!m.stack.any (·.isCall)) m.rest with
  | .found v rest => return { m with rest }.push v
  | .absent => Eval.raise m.unexpected
  | .torn => throw .violated

/-- Reads an identifier: the name of a function if a parenthesis follows, otherwise of a parameter. -/
def identifier (r : Resolver σ) (m : Machine) : Eval σ Machine :=
  let name := m.rest.takeWhile isIdentifierPart
  let after := m.rest.dropWhile isIdentifierPart
  match after.dropWhile isAsciiSpace with
  | '(' :: rest => { m with rest }.startCall r name
  | _ => do return { m with rest := after }.push (← r.parameter name m.expression)

def operand (r : Resolver σ) (m : Machine) : Eval σ Machine :=
  match m.rest with
  | [] => Eval.raise (.stackUnderflow m.expression)
  | c :: rest =>
    if c = '(' then return { m with rest }.await .parenthesis
    else if c = '+' then return { m with rest }.await (.unary .plus)
    else if c = '-' then return { m with rest }.await (.unary .negate)
    else if c = '!' then return { m with rest }.await (.unary .not)
    else if c = ')' then
      -- The end of an empty list of arguments.
      match m.stack with
      | .call callee base :: stack =>
        if base = m.values.length then { m with rest, stack }.finishCall r callee base
        else Eval.raise m.unexpected
      | _ => Eval.raise m.unexpected
    else if c = '@' then { m with rest }.reference r
    else if c.isDigit || (c == '.' && rest.head?.any Char.isDigit) then m.numeral
    else if isIdentifierStart c then m.identifier r
    else Eval.raise m.unexpected

def operator (r : Resolver σ) (m : Machine) : Eval σ Machine :=
  match longestOperator? r.operators m.rest with
  | some (f, rest) => do return (← { m with rest }.reduce r Precedence.power).await (.named f)
  | none =>
    match m.rest with
    | [] => Eval.raise (.stackUnderflow m.expression)
    | c :: rest =>
      if c = ')' then { m with rest }.close r
      else if c = ',' then { m with rest }.comma r m.offset
      else if c = '?' then do
        -- Conditionals associate to the right.
        return (← { m with rest }.reduce r (Precedence.conditional + 1)).await .question
      else if c = ':' then { m with rest }.colon r
      else
        match BinaryOperator.read? m.rest with
        | some (op, rest) => do return (← { m with rest }.reduce r op.precedence).await (.binary op)
        | none => Eval.raise m.unexpected

/-- The value once the text is exhausted. -/
def finish (r : Resolver σ) (m : Machine) : Eval σ Float := do
  if !m.expectOperator then Eval.raise (.stackUnderflow m.expression)
  else
    let m ← m.reduceGroup r
    match m.stack, m.values with
    | .parenthesis :: _, _ | .call .. :: _, _ => Eval.raise (.unbalancedParentheses m.expression)
    | .question :: _, _ => Eval.raise (.unmatchedConditional m.expression)
    | _, [v] => return v
    | _, _ => Eval.raise (.stackUnderflow m.expression)

/-- The scan. An operand takes at least one character and operators alternate with operands, so
twice the length of the text bounds the number of steps. -/
def scan (r : Resolver σ) : Nat → Machine → Eval σ Float
  | 0, _ => throw .exhausted
  | fuel + 1, m =>
    let m := { m with rest := m.rest.dropWhile isAsciiSpace }
    if m.rest.isEmpty then m.finish r
    else do scan r fuel (← if m.expectOperator then m.operator r else m.operand r)

/-- Whether an expression still has the delimiters that a netlist puts around it. -/
def isBracketed (t : Text) : Bool :=
  (t.head? == some '\x7b' && t.getLast? == some '\x7d') ||
    (decide (1 < t.length) && t.head? == some '\'' && t.getLast? == some '\'')

def run (r : Resolver σ) (t : Text) : Eval σ Float :=
  let trimmed := trim t
  if trimmed.isEmpty then Eval.raise .empty
  else if isBracketed trimmed then Eval.raise (.bracketed t)
  else scan r (2 * t.length + 2) { expression := t, rest := t }

end Machine

end Netlist
