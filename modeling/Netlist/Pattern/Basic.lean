import Netlist.Pattern.CharSet

/-!
Regular expressions and their matches. A pattern describes the ends of its matches at a position
as a list in order of preference: the left branch of an alternative before the right one, one
more round of a greedy repetition before none, one of a lazy repetition after. The match of a
pattern at a position is the first of these ends, so alternatives are ordered, not longest.
No end is listed twice.

A round of a repetition that consumes nothing ends it; rounds after the first have to consume.
-/
namespace Netlist

/-- A place in a text: the character before it, the text after it, and how many characters of
the text precede it. -/
structure Cursor where
  before : Option Char
  rest : Text
  offset : Nat
  deriving DecidableEq, Repr

namespace Cursor

/-- The start of a text. -/
def start (t : Text) : Cursor := ⟨none, t, 0⟩

/-- The places of both lists, those of the first before those that only the second has. -/
def merge (first second : List Cursor) : List Cursor :=
  first ++ second.filter fun e => !first.any (·.offset == e.offset)

/-- The places that a function gives for those of a list, without repetitions. -/
def collect (f : Cursor → List Cursor) : List Cursor → List Cursor
  | [] => []
  | c :: cs => merge (f c) (collect f cs)

end Cursor

/-- A condition on a place that consumes nothing. -/
inductive Assertion where
  | startText
  | endText
  | startLine
  | endLine
  | startLineCrlf
  | endLineCrlf
  | wordBoundary
  | notWordBoundary
  | wordStart
  | wordEnd
  | wordStartHalf
  | wordEndHalf
  deriving DecidableEq, Repr

def Assertion.holds (a : Assertion) (c : Cursor) : Bool :=
  let wordBefore := c.before.any isWord
  let wordAfter := c.rest.head?.any isWord
  match a with
  | startText => c.before.isNone
  | endText => c.rest.isEmpty
  | startLine => c.before.all (· == '\n')
  | endLine => c.rest.head?.all (· == '\n')
  | startLineCrlf =>
    c.before.all fun b => b == '\n' || (b == '\r' && c.rest.head? != some '\n')
  | endLineCrlf =>
    c.rest.head?.all fun x => x == '\r' || (x == '\n' && c.before != some '\r')
  | wordBoundary => wordBefore != wordAfter
  | notWordBoundary => wordBefore == wordAfter
  | wordStart => !wordBefore && wordAfter
  | wordEnd => wordBefore && !wordAfter
  | wordStartHalf => !wordBefore
  | wordEndHalf => !wordAfter

/-- A regular expression. `loop` repeats a pattern at least `least` and at most `most` times. -/
inductive Pattern where
  | empty
  | set (s : Pattern.CharSet)
  | assertion (a : Assertion)
  | seq (first second : Pattern)
  | alt (left right : Pattern)
  | loop (body : Pattern) (least : Nat) (most : Option Nat) (greedy : Bool)
  deriving DecidableEq, Repr

namespace Pattern

/-- The first list before the second if a repetition is greedy, behind it if it is lazy. -/
def prefer (greedy : Bool) (more fewer : List Cursor) : List Cursor :=
  if greedy then Cursor.merge more fewer else Cursor.merge fewer more

/-- Rounds of a repetition that has consumed something, from `c` on. The ends found so far are
kept in reverse order; a place that is among them is not visited again. -/
def rounds (body : Cursor → List Cursor) (greedy : Bool) : Nat → Cursor → List Cursor → List Cursor
  | fuel, c, found =>
    if found.any (·.offset == c.offset) then found
    else
      match fuel with
      | 0 => c :: found
      | fuel + 1 =>
        let onward (found : List Cursor) :=
          ((body c).filter (decide <| c.offset < ·.offset)).foldl
            (fun found e => rounds body greedy fuel e found) found
        if greedy then c :: onward found else onward (c :: found)

/-- The ends of one or more rounds. -/
def atLeastOnce (body : Cursor → List Cursor) (greedy : Bool) (c : Cursor) : List Cursor :=
  Cursor.collect
    (fun e => if c.offset < e.offset then (rounds body greedy e.rest.length e []).reverse else [e])
    (body c)

/-- The ends of exactly `n` rounds. -/
def times (body : Cursor → List Cursor) : Nat → Cursor → List Cursor
  | 0, c => [c]
  | n + 1, c => Cursor.collect (times body n) (body c)

/-- The ends of at most `n` rounds. -/
def atMost (body : Cursor → List Cursor) (greedy : Bool) : Nat → Cursor → List Cursor
  | 0, c => [c]
  | n + 1, c => prefer greedy (Cursor.collect (atMost body greedy n) (body c)) [c]

/-- The ends of a repetition. -/
def repetition (body : Cursor → List Cursor) (greedy : Bool) : Nat → Option Nat → Cursor → List Cursor
  | 0, none, c => prefer greedy (atLeastOnce body greedy c) [c]
  | n + 1, none, c => Cursor.collect (atLeastOnce body greedy) (times body n c)
  | n, some m, c => Cursor.collect (atMost body greedy (m - n)) (times body n c)

/-- The ends of the matches that start at a place, in order of preference. -/
def ends : Pattern → Cursor → List Cursor
  | empty, c => [c]
  | set s, c =>
    match c.rest with
    | x :: rest => if s.contains x then [⟨some x, rest, c.offset + 1⟩] else []
    | [] => []
  | assertion a, c => if a.holds c then [c] else []
  | seq first second, c => Cursor.collect second.ends (first.ends c)
  | alt left right, c => Cursor.merge (left.ends c) (right.ends c)
  | loop body least most greedy, c => repetition body.ends greedy least most c

/-- Whether every match starts at the start of the text. -/
def anchored : Pattern → Bool
  | assertion .startText => true
  | seq first second => first.anchored || (first == empty && second.anchored)
  | alt left right => left.anchored && right.anchored
  | _ => false

/-- The end of the match at the start of a text, in characters. -/
def matchLength? (p : Pattern) (t : Text) : Option Nat := (p.ends (.start t)).head?.map (·.offset)

end Pattern

end Netlist
