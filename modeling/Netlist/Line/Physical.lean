import Netlist.Text.Blank

/-!
Physical lines. A line ends with a line feed, a carriage return, the pair of both, or the end of
the text, and keeps its terminator. `flatten_physicalLines` says that the lines of a text make it
up again, `physicalLines_eq_firstLine` that they are read off one at a time.
-/
namespace Netlist

/-- A line feed or a carriage return. -/
def isLineBreak (c : Char) : Bool := c == '\n' || c == '\r'

/-- A line without its terminator, and the terminator, which is empty at the end of the text. -/
structure PhysicalLine where
  content : Text
  terminator : Text
  deriving DecidableEq, Repr

def PhysicalLine.whole (line : PhysicalLine) : Text := line.content ++ line.terminator

/-- The physical lines of a text. -/
def physicalLines : Text → List PhysicalLine
  | [] => []
  | '\r' :: '\n' :: rest => ⟨[], ['\r', '\n']⟩ :: physicalLines rest
  | c :: rest =>
    if isLineBreak c then ⟨[], [c]⟩ :: physicalLines rest
    else
      match physicalLines rest with
      | [] => [⟨[c], []⟩]
      | line :: lines => ⟨c :: line.content, line.terminator⟩ :: lines

def firstTerminator : Text → Text
  | '\r' :: '\n' :: _ => ['\r', '\n']
  | c :: _ => if isLineBreak c then [c] else []
  | [] => []

def firstLine (t : Text) : PhysicalLine :=
  ⟨t.takeWhile (!isLineBreak ·), firstTerminator (t.dropWhile (!isLineBreak ·))⟩

theorem flatten_physicalLines (t : Text) : (physicalLines t).flatMap PhysicalLine.whole = t := by
  fun_induction physicalLines t with
  | case1 => rfl
  | case2 rest ih => simp [PhysicalLine.whole, ih]
  | case3 c rest _ h ih => simp [PhysicalLine.whole, ih]
  | case4 c rest _ h empty ih =>
    rw [empty] at ih
    simp [PhysicalLine.whole, ← ih]
  | case5 c rest _ h line lines eq ih =>
    rw [eq] at ih
    simpa [PhysicalLine.whole] using ih

theorem physicalLines_eq_firstLine {t : Text} (h : t ≠ []) :
    physicalLines t = firstLine t :: physicalLines (t.drop (firstLine t).whole.length) := by
  fun_induction physicalLines t with
  | case1 => exact absurd rfl h
  | case2 rest _ => simp [firstLine, firstTerminator, PhysicalLine.whole, isLineBreak]
  | case3 c rest pair hc _ =>
    have terminator : firstTerminator (c :: rest) = [c] := by
      unfold firstTerminator
      split
      · next heq => exact (pair _ (List.cons.inj heq).1 (List.cons.inj heq).2).elim
      · next heq => obtain ⟨rfl, _⟩ := List.cons.inj heq; simp [hc]
      · next heq => cases heq
    simp [firstLine, PhysicalLine.whole, hc, terminator]
  | case4 c rest _ hc empty _ =>
    have : rest = [] := by
      have := flatten_physicalLines rest
      rw [empty] at this
      exact this.symm
    subst this
    simp [firstLine, firstTerminator, PhysicalLine.whole, hc, physicalLines]
  | case5 c rest _ hc line lines eq ih =>
    have nonempty : rest ≠ [] := by rintro rfl; cases eq
    have step := ih nonempty
    rw [eq] at step
    obtain ⟨first, others⟩ := List.cons.inj step
    simp [firstLine, PhysicalLine.whole, hc] at first others ⊢
    rw [first]
    exact ⟨⟨rfl, rfl⟩, others⟩

theorem firstLine_whole_ne_nil {t : Text} (h : t ≠ []) : (firstLine t).whole ≠ [] := by
  intro empty
  cases t with
  | nil => exact h rfl
  | cons c rest =>
    by_cases hc : isLineBreak c
    · simp only [firstLine, PhysicalLine.whole, List.takeWhile_cons, List.dropWhile_cons, hc, Bool.not_true,
        Bool.false_eq_true, if_false, List.nil_append] at empty
      unfold firstTerminator at empty
      split at empty <;> simp_all
    · simp [firstLine, PhysicalLine.whole, hc] at empty

theorem physicalLines_eq_nil {t : Text} : physicalLines t = [] ↔ t = [] := by
  fun_cases physicalLines t <;> simp

end Netlist
