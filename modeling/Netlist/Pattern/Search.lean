import Netlist.Pattern.Basic

/-!
Finding matches anywhere in a text. The first match is the one that starts earliest, and of
those that start there the preferred one. Replacement goes on behind each match and never
replaces an empty match directly behind another one.
-/
namespace Netlist.Pattern

/-- A match: the text before it, its own text, and the place behind it. -/
structure Found where
  skipped : Text
  matched : Text
  after : Cursor
  deriving DecidableEq, Repr

/-- The first match at or behind a place, with the text skipped so far in reverse order. -/
def findFrom (p : Pattern) (before : Option Char) (offset : Nat) (skipped : Text) : Text → Option Found
  | [] =>
    (p.ends ⟨before, [], offset⟩).head?.map fun e => ⟨skipped.reverse, [], e⟩
  | c :: rest =>
    match (p.ends ⟨before, c :: rest, offset⟩).head? with
    | some e => some ⟨skipped.reverse, (c :: rest).take (e.offset - offset), e⟩
    | none => findFrom p (some c) (offset + 1) (c :: skipped) rest

/-- The end of the first match anywhere in a text, in characters. -/
def findEnd? (p : Pattern) (t : Text) : Option Nat :=
  if p.anchored then p.matchLength? t else (p.findFrom none 0 [] t).map (·.after.offset)

/-- Matches replaced, from a place on; the fuel bounds the number of steps. -/
def replaceFrom (p : Pattern) (replacement : Text) : Nat → Cursor → Text
  | 0, c => c.rest
  | fuel + 1, c =>
    match p.findFrom c.before c.offset [] c.rest with
    | none => c.rest
    | some found =>
      found.skipped ++ replacement ++
        (if found.matched.isEmpty then
          match found.after.rest with
          | [] => []
          | x :: rest => x :: replaceFrom p replacement fuel ⟨some x, rest, found.after.offset + 1⟩
        else replaceFrom p replacement fuel found.after)

def replaceAll (p : Pattern) (replacement t : Text) : Text :=
  p.replaceFrom replacement (t.length + 1) (.start t)

end Netlist.Pattern
