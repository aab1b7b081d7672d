import Netlist.Text.Blank
import Netlist.Toml.Scalar

/-!
Reading TOML. A document is a list of statements, one on a line: headers and assignments. Readers
take a text and give what they read with the rest of the text, or nothing if the text is not well
formed. Readers that repeat something are bounded by the length of the text.
-/
namespace Netlist.Toml

def isPrintable (c : Char) : Bool := c == '\t' || (' ' ≤ c && c != '\x7f')

def afterLineBreak? : Text → Option Text
  | '\n' :: rest => some rest
  | '\r' :: '\n' :: rest => some rest
  | _ => none

/-- The text behind blanks, comments and line breaks. -/
def afterGap (bound : Nat) (t : Text) : Text :=
  match bound with
  | 0 => t
  | bound + 1 =>
    let t := t.dropWhile isBlank
    match t.head? with
    | some '#' => afterGap bound (t.dropWhile isPrintable)
    | _ =>
      match afterLineBreak? t with
      | some rest => afterGap bound rest
      | none => t

/-- The text behind the end of a line, which may have a comment. -/
def afterStatement? (t : Text) : Option Text :=
  let t := t.dropWhile isBlank
  let t := if t.head? = some '#' then t.dropWhile isPrintable else t
  if t.isEmpty then some [] else afterLineBreak? t

def codePoint? (count : Nat) (t : Text) : Option (Char × Text) :=
  let digits := t.take count
  let n := numeral 16 digits
  if digits.length = count ∧ digits.all (isDigitOf 16) ∧ n.isValidChar then some (Char.ofNat n, t.drop count) else none

/-- The character that an escape stands for; the text starts behind its backslash. -/
def escape? : Text → Option (Char × Text)
  | [] => none
  | c :: rest =>
    match c with
    | 'b' => some ('\x08', rest)
    | 't' => some ('\t', rest)
    | 'n' => some ('\n', rest)
    | 'f' => some ('\x0c', rest)
    | 'r' => some ('\r', rest)
    | 'e' => some ('\x1b', rest)
    | '"' => some ('"', rest)
    | '\\' => some ('\\', rest)
    | 'x' => codePoint? 2 rest
    | 'u' => codePoint? 4 rest
    | 'U' => codePoint? 8 rest
    | _ => none

def basicString? (bound : Nat) (t : Text) : Option (Text × Text) :=
  match bound, t with
  | 0, _ | _, [] => none
  | bound + 1, c :: rest =>
    if c = '"' then some ([], rest)
    else if c = '\\' then do
      let (e, rest) ← escape? rest
      let (t, rest) ← basicString? bound rest
      some (e :: t, rest)
    else if isPrintable c then do
      let (t, rest) ← basicString? bound rest
      some (c :: t, rest)
    else none

/-- A string without escapes, behind its opening quote. -/
def literalString? : Text → Option (Text × Text)
  | [] => none
  | c :: rest =>
    if c = '\x27' then some ([], rest)
    else if isPrintable c then do
      let (t, rest) ← literalString? rest
      some (c :: t, rest)
    else none

/-- The end of a string in triple quotes: up to two quotes may stand before the closing ones. -/
def closing? (quote : Char) (t : Text) : Option (Text × Text) :=
  let run := (t.takeWhile (· == quote)).length
  if run < 3 then none else
    let content := min (run - 3) 2
    some (List.replicate content quote, t.drop (content + 3))

/-- A string over several lines, behind its opening quotes. A backslash at the end of a line skips
all white space up to the next character. -/
def multilineString? (quote : Char) (bound : Nat) (t : Text) : Option (Text × Text) :=
  match bound, t with
  | 0, _ | _, [] => none
  | bound + 1, c :: rest =>
    match closing? quote (c :: rest) with
    | some found => some found
    | none =>
      if c = '\\' && quote = '"' then
        match afterLineBreak? (rest.dropWhile isBlank) with
        | some rest => multilineString? quote bound (rest.dropWhile fun c => isBlank c || c == '\n' || c == '\r')
        | none => do
          let (e, rest) ← escape? rest
          let (t, rest) ← multilineString? quote bound rest
          some (e :: t, rest)
      else if isPrintable c || (afterLineBreak? (c :: rest)).isSome || c = '\n' then do
        let (t, rest) ← multilineString? quote bound rest
        some (c :: t, rest)
      else none

/-- A string in quotes of either kind, on one line or over several lines. -/
def string? (t : Text) : Option (Text × Text) :=
  let several (quote : Char) (rest : Text) : Option (Text × Text) :=
    multilineString? quote t.length ((afterLineBreak? rest).getD rest)
  match afterOpening? (chars "\"\"\"") t, afterOpening? (chars "\x27\x27\x27") t, t with
  | some rest, _, _ => several '"' rest
  | _, some rest, _ => several '\x27' rest
  | _, _, '"' :: rest => basicString? t.length rest
  | _, _, '\x27' :: rest => literalString? rest
  | _, _, _ => none

/-- A character of a key without quotes. -/
def isKeyCharacter (c : Char) : Bool := c.isAlphanum || c == '_' || c == '-'

def simpleKey? (t : Text) : Option (Text × Text) :=
  match t with
  | '"' :: rest => basicString? t.length rest
  | '\x27' :: rest => literalString? rest
  | _ =>
    let key := t.takeWhile isKeyCharacter
    if key.isEmpty then none else some (key, t.dropWhile isKeyCharacter)

/-- A dotted key: the path before the last dot, and the part behind it. -/
structure Key where
  path : List Text
  last : Text
  deriving DecidableEq, Repr

def key? (bound : Nat) (t : Text) : Option (Key × Text) :=
  match bound with
  | 0 => none
  | bound + 1 => do
    let (part, rest) ← simpleKey? (t.dropWhile isBlank)
    match rest.dropWhile isBlank with
    | '.' :: rest =>
      let (key, rest) ← key? bound rest
      some ({ key with path := part :: key.path }, rest)
    | rest => some (⟨[], part⟩, rest)

/-- A character of a value without quotes. -/
def isScalarCharacter (c : Char) : Bool := c.isAlphanum || c == '+' || c == '-' || c == '_' || c == '.' || c == ':'

/-- A value without quotes. A blank may divide a date from a time. -/
def plainValue? (t : Text) : Option (Value × Text) :=
  let run := t.takeWhile isScalarCharacter
  let rest := t.dropWhile isScalarCharacter
  match afterDate? run, rest with
  | some [], ' ' :: c :: more =>
    if c.isDigit then
      (scalar? (run ++ ' ' :: (c :: more).takeWhile isScalarCharacter)).map
        (·, (c :: more).dropWhile isScalarCharacter)
    else (scalar? run).map (·, rest)
  | _, _ => (scalar? run).map (·, rest)

/-- Items divided by commas up to a closing bracket. A comma may stand behind the last item, and
the items may stand on several lines. -/
def items? {α : Type} (item? : Text → Option (α × Text)) (closing : Char) (bound : Nat) (t : Text) :
    Option (List α × Text) :=
  match bound with
  | 0 => none
  | bound + 1 =>
    match afterGap t.length t with
    | [] => none
    | c :: rest =>
      if c = closing then some ([], rest)
      else do
        let (item, rest) ← item? (c :: rest)
        match afterGap rest.length rest with
        | ',' :: rest =>
          let (items, rest) ← items? item? closing bound rest
          some (item :: items, rest)
        | c :: rest => if c = closing then some ([item], rest) else none
        | [] => none

def assignment? (value? : Text → Option (Value × Text)) (t : Text) : Option ((Key × Value) × Text) := do
  let (key, rest) ← key? t.length t
  let (v, rest) ← value? ((← afterOpening? ['='] rest).dropWhile isBlank)
  some ((key, v), rest)

/-- A value in which brackets nest up to a depth. -/
def value? (depth : Nat) (t : Text) : Option (Value × Text) :=
  match depth, t with
  | depth + 1, '[' :: rest => do
    let (items, rest) ← items? (value? depth) ']' t.length rest
    some (.array false items, rest)
  | depth + 1, '\x7b' :: rest => do
    let (assignments, rest) ← items? (assignment? (value? depth)) '\x7d' t.length rest
    let entries ← assignments.foldlM (fun entries (key, v) => Entries.assign? key.path key.last v entries) []
    some (.table .inline entries, rest)
  | _, _ =>
    match t.head? with
    | some '"' | some '\x27' => (string? t).map fun (t, rest) => (.text t, rest)
    | _ => plainValue? t

/-- How deep brackets may nest. -/
def nestingDepth : Nat := 80

/-- One line of a document. -/
inductive Statement where
  | header (key : Key)
  | item (key : Key)
  | assignment (key : Key) (v : Value)

def statement? (t : Text) : Option (Statement × Text) := do
  let (statement, rest) ← match afterOpening? (chars "[[") t, afterOpening? ['['] t with
    | some rest, _ => do
      let (key, rest) ← key? rest.length rest
      pure (Statement.item key, ← afterOpening? (chars "]]") rest)
    | none, some rest => do
      let (key, rest) ← key? rest.length rest
      pure (Statement.header key, ← afterOpening? [']'] rest)
    | none, none => do
      let ((key, v), rest) ← assignment? (value? nestingDepth) t
      pure (Statement.assignment key v, rest)
  some (statement, ← afterStatement? rest)

def statements? (bound : Nat) (t : Text) : Option (List Statement) :=
  match bound with
  | 0 => none
  | bound + 1 =>
    let t := afterGap t.length t
    if t.isEmpty then some []
    else do
      let (statement, rest) ← statement? t
      return statement :: (← statements? bound rest)

end Netlist.Toml
