import Netlist.Pattern.Basic

/-!
Patterns put together from smaller ones, for grammars that are written as definitions.
-/
namespace Netlist.Pattern

def oneOf (ranges : List (Char × Char)) : Pattern := .set (.ofRanges ranges)

def anyOf (s : String) : Pattern := .set (.ofList (chars s))

def noneOf (s : String) : Pattern := .set (.complement (.ofList (chars s)))

def inOrder : List Pattern → Pattern
  | [] => .empty
  | [p] => p
  | p :: ps => .seq p (inOrder ps)

def oneOfThese : List Pattern → Pattern
  | [] => .set .none
  | [p] => p
  | p :: ps => .alt p (oneOfThese ps)

/-- Exactly the given characters. -/
def literally (s : String) : Pattern := inOrder ((chars s).map fun c => .set (.single c))

def many (p : Pattern) : Pattern := .loop p 0 none true

def oneOrMore (p : Pattern) : Pattern := .loop p 1 none true

/-- The pattern once if possible, otherwise nothing. -/
def optional (p : Pattern) : Pattern := .loop p 0 (some 1) true

def atStart (p : Pattern) : Pattern := .seq (.assertion .startText) p

/-- A pattern with all its sets closed under equality up to case. -/
def ignoringCase : Pattern → Pattern
  | empty => empty
  | set s => set (.ignoringCase s)
  | assertion a => assertion a
  | seq first second => seq first.ignoringCase second.ignoringCase
  | alt left right => alt left.ignoringCase right.ignoringCase
  | loop body least most greedy => loop body.ignoringCase least most greedy

end Netlist.Pattern
