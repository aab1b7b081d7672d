import Netlist.Text.Blank
import Netlist.Text.Word
import Netlist.Text.CaseFold

/-!
Sets of characters as expressions; `contains` gives the characters that belong to one.
`ignoringCase` closes a set under equality up to case.
-/
namespace Netlist.Pattern

/-- A set of characters. -/
inductive CharSet where
  | none
  | range (first last : Char)
  | word
  | digit
  | space
  | union (left right : CharSet)
  | inter (left right : CharSet)
  | complement (set : CharSet)
  | ignoringCase (set : CharSet)
  deriving DecidableEq, Repr

namespace CharSet

def contains : CharSet → Char → Bool
  | none, _ => false
  | range first last, c => decide (first.val ≤ c.val) && decide (c.val ≤ last.val)
  | word, c => isWord c
  | digit, c => isDecimalDigit c
  | space, c => isWhiteSpace c
  | union left right, c => left.contains c || right.contains c
  | inter left right, c => left.contains c && right.contains c
  | complement set, c => !set.contains c
  | ignoringCase set, c => (letterForms c).any set.contains

def single (c : Char) : CharSet := range c c

def all : CharSet := complement none

/-- The characters of a list. -/
def ofList (cs : List Char) : CharSet := cs.foldr (fun c set => union (single c) set) none

def ofRanges (ranges : List (Char × Char)) : CharSet :=
  ranges.foldr (fun (first, last) set => union (range first last) set) none

def difference (left right : CharSet) : CharSet := inter left (complement right)

def symmetricDifference (left right : CharSet) : CharSet :=
  union (difference left right) (difference right left)

end CharSet

end Netlist.Pattern
