import Netlist.Line.Physical

/-!
Continuation lines. A line goes on in the next one if its last character that is not blank is the
current-line marker, or if the first such character of the next line is the next-line marker.
Splicing joins the lines of such a run by single spaces and leaves the markers out.
-/
namespace Netlist

/-- The two markers, either of which may be absent. -/
structure Continuation where
  nextLine : Option Char := none
  currentLine : Option Char := none
  deriving DecidableEq, Repr

namespace Continuation

/-- The markers of netlists: `+` in front of the following line, `\` behind the current one. -/
def netlist : Continuation := ⟨some '+', some '\\'⟩

/-- Whether a line ends with the current-line marker. -/
def continuesCurrent (k : Continuation) (content : Text) : Bool :=
  match k.currentLine with
  | some marker => (dropEndWhile isBlank content).getLast? == some marker
  | none => false

/-- Whether a line starts with the next-line marker. -/
def continuesPrevious (k : Continuation) (content : Text) : Bool :=
  match k.nextLine with
  | some marker => (content.dropWhile isBlank).head? == some marker
  | none => false

def joins (k : Continuation) (line next : PhysicalLine) : Bool :=
  k.continuesCurrent line.content || k.continuesPrevious next.content

def group (k : Continuation) : List PhysicalLine → List (List PhysicalLine)
  | [] => []
  | line :: lines =>
    match lines, group k lines with
    | next :: _, run :: runs => if k.joins line next then (line :: run) :: runs else [line] :: run :: runs
    | _, runs => [line] :: runs

def source (lines : List PhysicalLine) : Text := lines.flatMap PhysicalLine.whole

/-- The first line of a text and the lines that continue it, at most `bound` in all. -/
def firstRunWithin (k : Continuation) : Nat → Text → List PhysicalLine
  | 0, _ => []
  | bound + 1, t =>
    let line := firstLine t
    let rest := t.drop line.whole.length
    if !rest.isEmpty && k.joins line (firstLine rest) then line :: firstRunWithin k bound rest else [line]

/-- The run of lines at the start of a text. -/
def firstRun (k : Continuation) (t : Text) : List PhysicalLine :=
  if t.isEmpty then [] else k.firstRunWithin t.length t

/-- A line without the next-line marker and the blanks in front of it. -/
def withoutNextMarker (k : Continuation) (content : Text) : Text :=
  if k.continuesPrevious content then (content.dropWhile isBlank).drop 1 else content

/-- A line without the current-line marker and the blanks behind it. -/
def withoutCurrentMarker (k : Continuation) (content : Text) : Text :=
  if k.continuesCurrent content then (dropEndWhile isBlank content).dropLast else content

def spliceRest (k : Continuation) : List PhysicalLine → Text
  | [] => []
  | [last] => ' ' :: k.withoutNextMarker last.content
  | line :: lines => ' ' :: k.withoutCurrentMarker (k.withoutNextMarker line.content) ++ spliceRest k lines

/-- Lines joined into one. Only the first keeps a next-line marker and only the last keeps a
current-line marker. -/
def splice (k : Continuation) : List PhysicalLine → Text
  | [] => []
  | [line] => line.content
  | line :: lines => k.withoutCurrentMarker line.content ++ k.spliceRest lines

theorem group_flatten (k : Continuation) (lines : List PhysicalLine) :
    (k.group lines).flatten = lines := by
  induction lines with
  | nil => rfl
  | cons line lines ih =>
    unfold group
    split
    · rename_i h
      rw [h] at ih
      split <;> simpa using ih
    · simp [ih]

theorem group_ne_nil (k : Continuation) {lines : List PhysicalLine} (h : lines ≠ []) : k.group lines ≠ [] := by
  intro empty
  have whole := k.group_flatten lines
  rw [empty] at whole
  exact h whole.symm

theorem group_cons_cons (k : Continuation) (line : PhysicalLine) {next : PhysicalLine} {lines run : List PhysicalLine}
    {runs : List (List PhysicalLine)} (eq : k.group (next :: lines) = run :: runs) :
    k.group (line :: next :: lines) = if k.joins line next then (line :: run) :: runs else [line] :: run :: runs := by
  rw [group.eq_def]
  simp only [eq]

/-- The run at the start of a text is the first of all runs. -/
theorem headD_group (k : Continuation) {bound : Nat} {t : Text} (long : t.length ≤ bound) (h : t ≠ []) :
    (k.group (physicalLines t)).headD [] = k.firstRunWithin bound t := by
  induction bound generalizing t with
  | zero => exact absurd (List.length_eq_zero_iff.1 (Nat.le_zero.1 long)) h
  | succ bound ih =>
    rw [physicalLines_eq_firstLine h]
    simp only [firstRunWithin]
    by_cases last : t.drop (firstLine t).whole.length = []
    · simp [last, physicalLines, group]
    · have positive := List.length_pos_iff.2 (firstLine_whole_ne_nil h)
      have shorter : (t.drop (firstLine t).whole.length).length ≤ bound := by
        rw [List.length_drop]
        omega
      have more := ih shorter last
      have nonempty := k.group_ne_nil (mt physicalLines_eq_nil.1 last)
      rw [physicalLines_eq_firstLine last] at more nonempty ⊢
      obtain ⟨run, runs, eq⟩ := List.exists_cons_of_ne_nil nonempty
      rw [k.group_cons_cons (firstLine t) eq, ← more, eq]
      by_cases joined : k.joins (firstLine t) (firstLine (t.drop (firstLine t).whole.length)) <;> simp [joined, last]

theorem firstRun_eq_headD (k : Continuation) (t : Text) : k.firstRun t = (k.group (physicalLines t)).headD [] := by
  unfold firstRun
  split
  · next h => simp [List.isEmpty_iff.1 h, physicalLines, group]
  · next h => exact (k.headD_group (Nat.le_refl _) (by simpa using h)).symm

end Continuation

end Netlist
