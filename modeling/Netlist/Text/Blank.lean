import Netlist.Text.Basic

/-!
White space. Trimming and the extent of an offending word follow the Unicode property
White_Space; the expression scanner skips ASCII white space only, and within a line only the
space and the tab are blank.
-/
namespace Netlist

/-- The Unicode property White_Space. -/
def isWhiteSpace (c : Char) : Bool :=
  let n := c.toNat
  (9 ≤ n && n ≤ 13) || n = 32 || n = 0x85 || n = 0xA0 || n = 0x1680 ||
    (0x2000 ≤ n && n ≤ 0x200A) || n = 0x2028 || n = 0x2029 || n = 0x202F || n = 0x205F || n = 0x3000

/-- Space, tab, line feed, form feed and carriage return. -/
def isAsciiSpace (c : Char) : Bool :=
  c == ' ' || c == '\t' || c == '\n' || c == '\x0c' || c == '\r'

theorem isWhiteSpace_of_isAsciiSpace {c : Char} (ascii : isAsciiSpace c = true) : isWhiteSpace c = true := by
  simp only [isAsciiSpace, Bool.or_eq_true, beq_iff_eq] at ascii
  rcases ascii with (((rfl | rfl) | rfl) | rfl) | rfl <;> rfl

/-- Space or tab, the characters that separate tokens within a line. -/
def isBlank (c : Char) : Bool := c == ' ' || c == '\t'

/-- Without trailing characters of the given class. -/
def dropEndWhile (p : Char → Bool) (t : Text) : Text := (t.reverse.dropWhile p).reverse

/-- Without white space at either end. -/
def trim (t : Text) : Text := dropEndWhile isWhiteSpace (t.dropWhile isWhiteSpace)

end Netlist
