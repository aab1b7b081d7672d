import Netlist.Pattern.Basic

/-!
The written form of patterns. `Pattern.parse?` reads alternatives, greedy and lazy repetitions,
classes with ranges, nesting and the operators `&&`, `--` and `~~`, groups with or without names,
flags, the Perl classes, anchors and word boundaries, and refuses everything else. Groups only
group: what they capture is not kept. Classes by Unicode property are not part of the form.
-/
namespace Netlist.Pattern

structure Flags where
  ignoreCase : Bool := false
  multiLine : Bool := false
  dotAll : Bool := false
  swapGreed : Bool := false
  ignoreSpace : Bool := false
  crlf : Bool := false
  unicode : Bool := true
  deriving DecidableEq, Repr

namespace Reader

/-- Characters that stand for themselves behind a backslash: ASCII, but neither letters nor
digits nor angle brackets, which mark word boundaries. -/
def isEscapable (c : Char) : Bool := decide (c.toNat < 128) && !c.isAlphanum && c != '<' && c != '>'

/-- A comment, or nothing, at the start of a text that ignores white space. -/
private def skipComment : Text → Text
  | '#' :: rest => rest.dropWhile (· != '\n')
  | t => t

/-- Without white space and comments, where they are ignored; every comment takes one unit of
fuel. -/
def skipSpace (flags : Flags) : Nat → Text → Text
  | 0, t => t
  | fuel + 1, t =>
    if flags.ignoreSpace then
      let rest := skipComment (t.dropWhile isWhiteSpace)
      if rest.length < t.length then skipSpace flags fuel rest else rest
    else t

/-- Without ignored space, with fuel that always suffices. -/
def skip (flags : Flags) (t : Text) : Text := skipSpace flags t.length t

private def hexValue? (c : Char) : Option Nat :=
  if c.isDigit then some (c.toNat - '0'.toNat)
  else if 'a' ≤ c ∧ c ≤ 'f' then some (c.toNat - 'a'.toNat + 10)
  else if 'A' ≤ c ∧ c ≤ 'F' then some (c.toNat - 'A'.toNat + 10)
  else none

def hexCharacter? (digits : Text) : Option Char := do
  let n ← digits.foldlM (fun n c => return 16 * n + (← hexValue? c)) 0
  if digits.isEmpty then none else if h : n.isValidChar then some (Char.ofNatAux n h) else none

/-- The digits of a hexadecimal escape, in braces or of fixed length, and the rest. -/
private def hexEscape? (length : Nat) : Text → Option (Char × Text)
  | '\x7b' :: rest =>
    match rest.dropWhile (· != '\x7d') with
    | _ :: after => (hexCharacter? (rest.takeWhile (· != '\x7d'))).map (·, after)
    | [] => none
  | t => if length ≤ t.length then (hexCharacter? (t.take length)).map (·, t.drop length) else none

inductive Escape where
  | character (c : Char)
  | class (s : CharSet)
  | assertion (a : Assertion)

private def asciiDigit : CharSet := .range '0' '9'
private def asciiSpace : CharSet := .ofList ['\t', '\n', '\x0b', '\x0c', '\r', ' ']
private def asciiWord : CharSet := .ofRanges [('0', '9'), ('A', 'Z'), ('_', '_'), ('a', 'z')]

/-- The class of a Perl escape letter. Outside Unicode mode classes hold ASCII only, and a
negated class is refused, for it would match parts of characters. -/
def perlClass? (flags : Flags) (c : Char) : Option CharSet :=
  let pick (unicode ascii : CharSet) := if flags.unicode then unicode else ascii
  let negated (s : CharSet) := if flags.unicode then some (CharSet.complement s) else none
  match c with
  | 'd' => some (pick .digit asciiDigit)
  | 's' => some (pick .space asciiSpace)
  | 'w' => some (pick .word asciiWord)
  | 'D' => negated .digit
  | 'S' => negated .space
  | 'W' => negated .word
  | _ => none

private def specialBoundary? (name : Text) : Option Assertion :=
  if name == chars "start" then some .wordStart
  else if name == chars "end" then some .wordEnd
  else if name == chars "start-half" then some .wordStartHalf
  else if name == chars "end-half" then some .wordEndHalf
  else none

/-- The assertion of `\b`, which a name in braces may refine. A brace that no name follows is
left to be read as a count. -/
private def boundary? (flags : Flags) (t : Text) : Option (Assertion × Text) :=
  match t with
  | '\x7b' :: rest =>
    let inner := skip flags rest
    let isNameChar (c : Char) := c.isAlpha || c == '-'
    match inner with
    | [] => none
    | c :: _ =>
      if isNameChar c then
        match skip flags (inner.dropWhile isNameChar) with
        | '\x7d' :: after => (specialBoundary? (inner.takeWhile isNameChar)).map (·, after)
        | _ => none
      else some (.wordBoundary, t)
  | _ => some (.wordBoundary, t)

def escape? (flags : Flags) : Text → Option (Escape × Text)
  | [] => none
  | c :: rest =>
    match perlClass? flags c with
    | some s => some (.class s, rest)
    | none =>
      match c with
      | 'x' => (hexEscape? 2 rest).map fun (c, t) => (.character c, t)
      | 'u' => (hexEscape? 4 rest).map fun (c, t) => (.character c, t)
      | 'U' => (hexEscape? 8 rest).map fun (c, t) => (.character c, t)
      | 'a' => some (.character '\x07', rest)
      | 'f' => some (.character '\x0c', rest)
      | 't' => some (.character '\t', rest)
      | 'n' => some (.character '\n', rest)
      | 'r' => some (.character '\r', rest)
      | 'v' => some (.character '\x0b', rest)
      | 'A' => some (.assertion .startText, rest)
      | 'z' => some (.assertion .endText, rest)
      | 'b' => (boundary? flags rest).map fun (a, t) => (.assertion a, t)
      | 'B' => some (.assertion .notWordBoundary, rest)
      | '<' => some (.assertion .wordStart, rest)
      | '>' => some (.assertion .wordEnd, rest)
      | c => if isEscapable c then some (.character c, rest) else none

/-! ### Classes in brackets -/

inductive SetOperator where
  | intersection
  | difference
  | symmetricDifference

/-- What an unfinished class is waiting for: the closing bracket, with what stands before the
opening one, or the right side of an operator. -/
inductive ClassFrame where
  | opened (outer : CharSet) (negated : Bool)
  | operator (kind : SetOperator) (left : CharSet)

private def folded (flags : Flags) (s : CharSet) : CharSet :=
  if flags.ignoreCase then .ignoringCase s else s

private def combine (flags : Flags) (kind : SetOperator) (left right : CharSet) : CharSet :=
  let l := folded flags left
  let r := folded flags right
  match kind with
  | .intersection => .inter l r
  | .difference => .difference l r
  | .symmetricDifference => .symmetricDifference l r

private def settle (flags : Flags) (stack : List ClassFrame) (right : CharSet) : List ClassFrame × CharSet :=
  match stack with
  | .operator kind left :: below => (below, combine flags kind left right)
  | _ => (stack, right)

private def posixClass? (name : Text) : Option CharSet :=
  let named (s : String) := name == chars s
  if named "alnum" then some (.ofRanges [('0', '9'), ('A', 'Z'), ('a', 'z')])
  else if named "alpha" then some (.ofRanges [('A', 'Z'), ('a', 'z')])
  else if named "ascii" then some (.range '\x00' '\x7f')
  else if named "blank" then some (.ofList ['\t', ' '])
  else if named "cntrl" then some (.ofRanges [('\x00', '\x1f'), ('\x7f', '\x7f')])
  else if named "digit" then some asciiDigit
  else if named "graph" then some (.range '!' '~')
  else if named "lower" then some (.range 'a' 'z')
  else if named "print" then some (.range ' ' '~')
  else if named "punct" then some (.ofRanges [('!', '/'), (':', '@'), ('[', '\x60'), ('\x7b', '~')])
  else if named "space" then some asciiSpace
  else if named "upper" then some (.range 'A' 'Z')
  else if named "word" then some asciiWord
  else if named "xdigit" then some (.ofRanges [('0', '9'), ('A', 'F'), ('a', 'f')])
  else none

/-- A class such as `[:alpha:]`, its opening bracket already taken, and the rest. -/
private def posix? : Text → Option (CharSet × Text)
  | ':' :: rest =>
    let (negated, body) := match rest with
      | '^' :: more => (true, more)
      | _ => (false, rest)
    let name := body.takeWhile (· != ':')
    match body.dropWhile (· != ':'), posixClass? name with
    | ':' :: ']' :: after, some s => some (if negated then .complement s else s, after)
    | _, _ => none
  | _ => none

/-- The start of a class behind its opening bracket: whether it is negated, and the hyphens and
the closing bracket that stand for themselves there. -/
private def classStart? (flags : Flags) (t : Text) : Option (Bool × CharSet × Text) :=
  let t := skip flags t
  let (negated, t) := match t with
    | '^' :: more => (true, skip flags more)
    | _ => (false, t)
  let rec hyphens : Nat → CharSet → Text → CharSet × Text
    | fuel + 1, s, '-' :: more => hyphens fuel (.union s (.single '-')) (skip flags more)
    | _, s, t => (s, t)
  match hyphens t.length .none t with
  | (_, []) => none
  | (.none, ']' :: more) => some (negated, .single ']', skip flags more)
  | (s, rest) => some (negated, s, rest)

/-- One member of a class: a character or a Perl class. -/
private def classItem? (flags : Flags) : Text → Option ((Char ⊕ CharSet) × Text)
  | '\\' :: rest =>
    match escape? flags rest with
    | some (.character c, after) => some (.inl c, after)
    | some (.class s, after) => some (.inr s, after)
    | _ => none
  | c :: rest => some (.inl c, rest)
  | [] => none

private def itemSet : Char ⊕ CharSet → CharSet
  | .inl c => .single c
  | .inr s => s

/-- A member of a class or a range, and the rest. -/
private def classRange? (flags : Flags) (t : Text) : Option (CharSet × Text) := do
  let (first, rest) ← classItem? flags t
  let rest := skip flags rest
  match rest with
  | '-' :: more =>
    let next := skip flags more
    if next.head? == some ']' || next.head? == some '-' then return (itemSet first, rest)
    match first, ← classItem? flags next with
    | .inl low, (.inl high, after) => if low.val ≤ high.val then return (.range low high, after) else none
    | _, _ => none
  | _ => return (itemSet first, rest)

/-- The rest of a class, one member at a time. -/
private def classLoop (flags : Flags) : Nat → List ClassFrame → CharSet → Text → Option (CharSet × Text)
  | 0, _, _, _ => none
  | fuel + 1, stack, s, t =>
    let operate (kind : SetOperator) (rest : Text) :=
      let (below, left) := settle flags stack s
      classLoop flags fuel (.operator kind left :: below) .none rest
    match skip flags t with
    | '[' :: rest =>
      match posix? rest with
      | some (named, after) => classLoop flags fuel stack (.union s named) after
      | none =>
        match classStart? flags rest with
        | some (negated, inner, after) => classLoop flags fuel (.opened s negated :: stack) inner after
        | none => none
    | ']' :: rest =>
      match settle flags stack s with
      | (.opened outer negated :: below, whole) =>
        let closed := folded flags whole
        if negated && !flags.unicode then none
        else
          let done := if negated then .complement closed else closed
          if below.isEmpty then some (done, rest) else classLoop flags fuel below (.union outer done) rest
      | _ => none
    | '&' :: '&' :: rest => operate .intersection rest
    | '-' :: '-' :: rest => operate .difference rest
    | '~' :: '~' :: rest => operate .symmetricDifference rest
    | t =>
      match classRange? flags t with
      | some (member, rest) => classLoop flags fuel stack (.union s member) rest
      | none => none

def class? (flags : Flags) (t : Text) : Option (CharSet × Text) := do
  let (negated, s, rest) ← classStart? flags t
  classLoop flags (t.length + 1) [.opened .none negated] s rest

/-! ### Groups, repetitions and alternatives -/

private def count? (t : Text) : Option (Nat × Text) :=
  let t := t.dropWhile isWhiteSpace
  let digits := t.takeWhile Char.isDigit
  let n := digits.foldl (fun n c => 10 * n + (c.toNat - '0'.toNat)) 0
  if digits.isEmpty || decide (UInt32.size ≤ n) then none
  else some (n, (t.dropWhile Char.isDigit).dropWhile isWhiteSpace)

/-- The bounds of a counted repetition, its opening brace already taken. -/
private def bounds? (flags : Flags) (t : Text) : Option ((Nat × Option Nat) × Text) := do
  let (least, rest) ← count? (skip flags t)
  match rest with
  | ',' :: more =>
    match skip flags more with
    | '\x7d' :: after => return ((least, none), after)
    | next =>
      let (most, rest) ← count? next
      match rest with
      | '\x7d' :: after => if least ≤ most then return ((least, some most), after) else none
      | _ => none
  | '\x7d' :: after => return ((least, some least), after)
  | _ => none

/-- Flags up to a colon or closing parenthesis; each may be given once, and a hyphen turns off
those behind it. -/
private def flagsLoop : Flags → Bool → List Char → Text → Option (Flags × List Char × Text)
  | flags, negated, seen, c :: rest =>
    if c == ':' || c == ')' then
      if seen.head? == some '-' then none else some (flags, seen, c :: rest)
    else if seen.contains c then none
    else
      let on := !negated
      let seen := c :: seen
      match c with
      | '-' => flagsLoop flags true seen rest
      | 'i' => flagsLoop { flags with ignoreCase := on } negated seen rest
      | 'm' => flagsLoop { flags with multiLine := on } negated seen rest
      | 's' => flagsLoop { flags with dotAll := on } negated seen rest
      | 'U' => flagsLoop { flags with swapGreed := on } negated seen rest
      | 'u' => flagsLoop { flags with unicode := on } negated seen rest
      | 'R' => flagsLoop { flags with crlf := on } negated seen rest
      | 'x' => flagsLoop { flags with ignoreSpace := on } negated seen rest
      | _ => none
  | _, _, _, [] => none

private def groupName? (t : Text) : Option (Text × Text) :=
  let name := t.takeWhile (· != '>')
  let isLetter (c : Char) := c == '_' || (isWord c && !isDecimalDigit c)
  let isOther (c : Char) := isWord c || c == '.' || c == '[' || c == ']'
  match name, t.dropWhile (· != '>') with
  | first :: others, _ :: rest => if isLetter first && others.all isOther then some (name, rest) else none
  | _, _ => none

/-- A group that is being read: the finished alternatives and the parts of the current one, both
in reverse order, and the flags to go back to behind it. A flag setting leaves a part that cannot
be repeated. -/
structure Level where
  alternatives : List Pattern := []
  parts : List (Option Pattern) := []
  outer : Flags

/-- What has been read: the open groups, innermost first, the flags in force, the names given. -/
structure Progress where
  level : Level
  above : List Level := []
  flags : Flags
  names : List Text := []

private def concatenation (parts : List (Option Pattern)) : Pattern :=
  match (parts.filterMap id).reverse with
  | [] => .empty
  | p :: ps => (p :: ps).dropLast.foldr .seq ((p :: ps).getLastD p)

private def Level.pattern (level : Level) : Pattern :=
  level.alternatives.foldl (fun right left => .alt left right) (concatenation level.parts)

private def Progress.add (s : Progress) (p : Option Pattern) : Progress :=
  { s with level := { s.level with parts := p :: s.level.parts } }

private def Progress.enter (s : Progress) (inner : Flags) : Progress :=
  { s with level := { outer := s.flags }, above := s.level :: s.above, flags := inner }

private def literal (flags : Flags) (c : Char) : Pattern :=
  .set (if flags.ignoreCase then .ignoringCase (.single c) else .single c)

/-- The part before a repetition mark, repeated; a question mark behind it makes it lazy. -/
private def Progress.repeat? (s : Progress) (least : Nat) (most : Option Nat) (t : Text) :
    Option (Progress × Text) :=
  match s.level.parts with
  | some p :: parts =>
    let (lazy, rest) := match t with
      | '?' :: rest => (true, rest)
      | _ => (false, t)
    some ({ s with level := { s.level with parts := some (.loop p least most (lazy == s.flags.swapGreed)) :: parts } }, rest)
  | _ => none

private def Progress.open? (s : Progress) (t : Text) : Option (Progress × Text) :=
  match skip s.flags t with
  | '?' :: 'P' :: '<' :: rest | '?' :: '<' :: rest =>
    match groupName? rest with
    | some (name, after) =>
      if s.names.contains name then none
      else some ({ s.enter s.flags with names := name :: s.names }, after)
    | none => none
  | '?' :: rest =>
    match flagsLoop s.flags false [] rest with
    | some (flags, seen, ')' :: after) =>
      if seen.isEmpty then none else some ({ s.add none with flags }, after)
    | some (flags, _, ':' :: after) => some (s.enter flags, after)
    | _ => none
  | rest => some (s.enter s.flags, rest)

private def Progress.close? (s : Progress) : Option Progress :=
  match s.above with
  | [] => none
  | level :: above =>
    some { s with
      level := { level with parts := some s.level.pattern :: level.parts }
      above
      flags := s.level.outer }

private def dot? (flags : Flags) : Option CharSet :=
  if !flags.unicode then none
  else if flags.dotAll then some .all
  else some (.complement (.ofList (if flags.crlf then ['\n', '\r'] else ['\n'])))

private def lineStart (flags : Flags) : Assertion :=
  if !flags.multiLine then .startText else if flags.crlf then .startLineCrlf else .startLine

private def lineEnd (flags : Flags) : Assertion :=
  if !flags.multiLine then .endText else if flags.crlf then .endLineCrlf else .endLine

private def Progress.read? (s : Progress) (c : Char) (rest : Text) : Option (Progress × Text) :=
  match c with
  | '(' => s.open? rest
  | ')' => s.close?.map (·, rest)
  | '|' =>
    let level := { s.level with
      alternatives := concatenation s.level.parts :: s.level.alternatives
      parts := [] }
    some ({ s with level }, rest)
  | '[' => (class? s.flags rest).map fun (members, after) => (s.add (some (.set members)), after)
  | '?' => s.repeat? 0 (some 1) rest
  | '*' => s.repeat? 0 none rest
  | '+' => s.repeat? 1 none rest
  | '\x7b' =>
    match s.level.parts with
    | some _ :: _ =>
      match bounds? s.flags rest with
      | some ((least, most), after) => s.repeat? least most (skip s.flags after)
      | none => none
    | _ => none
  | '\\' =>
    match escape? s.flags rest with
    | some (.character c, after) => some (s.add (some (literal s.flags c)), after)
    | some (.class members, after) => some (s.add (some (.set members)), after)
    | some (.assertion a, after) => some (s.add (some (.assertion a)), after)
    | none => none
  | '.' => (dot? s.flags).map fun members => (s.add (some (.set members)), rest)
  | '^' => some (s.add (some (.assertion (lineStart s.flags))), rest)
  | '$' => some (s.add (some (.assertion (lineEnd s.flags))), rest)
  | c => some (s.add (some (literal s.flags c)), rest)

private def readLoop : Nat → Progress → Text → Option Pattern
  | 0, _, _ => none
  | fuel + 1, s, t =>
    match skip s.flags t with
    | [] => if s.above.isEmpty then some s.level.pattern else none
    | c :: rest =>
      match s.read? c rest with
      | some (next, after) => readLoop fuel next after
      | none => none

end Reader

def parse? (ignoreCase : Bool) (t : Text) : Option Pattern :=
  let flags : Flags := { ignoreCase }
  Reader.readLoop (t.length + 1) { level := { outer := flags }, flags } t

end Netlist.Pattern
