import Mathlib.Data.List.Chain
import Netlist.Proofs.Line.Slice

/-!
Where logical lines end. The terminator of a physical line ends a logical line unless a marker joins the
line to the one behind it.
-/
namespace Netlist

def LogicalLine.last (t : Text) (line : LogicalLine) : PhysicalLine :=
  (Netlist.physicalLines (line.raw t)).getLastD ⟨[], []⟩

def LogicalLine.terminator? (t : Text) (line : LogicalLine) : Option (Nat × Nat) :=
  let terminator := (line.last t).terminator
  if terminator = [] then none else some (line.stop - byteSize terminator, line.stop)

namespace Continuation
variable {k : Continuation}

/-- The byte ranges, from a position on, of the terminators of physical lines that no marker joins to
what is behind them. -/
def openEnds (k : Continuation) : Nat → List PhysicalLine → List (Nat × Nat)
  | _, [] => []
  | position, line :: lines =>
    let stop := position + byteSize line.whole
    if line.terminator = [] || k.continuesCurrent line.content || lines.head?.any (k.continuesPrevious ·.content) then
      openEnds k stop lines
    else (stop - byteSize line.terminator, stop) :: openEnds k stop lines

theorem group_head {lines run : List PhysicalLine} {runs : List (List PhysicalLine)} {line : PhysicalLine}
    (eq : k.group (line :: lines) = run :: runs) : ∃ more, run = line :: more := by
  obtain ⟨nonempty, _, _⟩ := group_eq_cons eq
  obtain ⟨first, more, rfl⟩ := List.exists_cons_of_ne_nil nonempty
  have flat := k.group_flatten (line :: lines)
  rw [eq, List.flatten_cons, List.cons_append] at flat
  rw [(List.cons.inj flat).1]
  exact ⟨more, rfl⟩

theorem group_chain {lines run : List PhysicalLine} {runs : List (List PhysicalLine)} (eq : k.group lines = run :: runs) :
    run.IsChain fun line next => k.joins line next = true := by
  induction lines generalizing run runs with
  | nil => cases eq
  | cons line lines ih =>
    cases lines with
    | nil =>
      obtain ⟨rfl, rfl⟩ := List.cons.inj eq
      exact .singleton _
    | cons next lines =>
      obtain ⟨run', runs', eq'⟩ := List.exists_cons_of_ne_nil (k.group_ne_nil (List.cons_ne_nil next lines))
      obtain ⟨more, rfl⟩ := group_head eq'
      rw [k.group_cons_cons line eq'] at eq
      split at eq
      · next joined =>
        obtain ⟨rfl, rfl⟩ := List.cons.inj eq
        exact .cons_cons joined (ih eq')
      · obtain ⟨rfl, rfl⟩ := List.cons.inj eq
        exact .singleton _

theorem openEnds_cons_joined {line next : PhysicalLine} {lines : List PhysicalLine} (position : Nat)
    (joined : k.joins line next = true) :
    k.openEnds position (line :: next :: lines) = k.openEnds (position + byteSize line.whole) (next :: lines) := by
  have held : (k.continuesCurrent line.content || (next :: lines).head?.any (k.continuesPrevious ·.content)) = true := joined
  rw [openEnds]
  rw [Bool.or_assoc, held, Bool.or_true, if_pos rfl]

theorem openEnds_chain {front others more : List PhysicalLine} {next : PhysicalLine} {position : Nat}
    (chain : (front ++ next :: others).IsChain fun line next => k.joins line next = true) :
    k.openEnds position (front ++ next :: more) = k.openEnds (position + byteSize (source front)) (next :: more) := by
  induction front generalizing position with
  | nil => rfl
  | cons line front ih =>
    have size : byteSize (source (line :: front)) = byteSize line.whole + byteSize (source front) := byteSize_append _ _
    rw [size, ← Nat.add_assoc, ← ih chain.tail]
    cases front with
    | nil => exact openEnds_cons_joined position (List.isChain_cons_cons.mp chain).1
    | cons line' front => exact openEnds_cons_joined position (List.isChain_cons_cons.mp chain).1

theorem openEnds_parts {line : PhysicalLine} {lines : List PhysicalLine} (position : Nat)
    (parts : ∀ next, lines.head? = some next → k.joins line next = false) :
    k.openEnds position (line :: lines) =
      (if line.terminator = [] ∨ k.continuesCurrent line.content = true then []
        else [(position + byteSize line.whole - byteSize line.terminator, position + byteSize line.whole)]) ++
      k.openEnds (position + byteSize line.whole) lines := by
  have apart : lines.head?.any (k.continuesPrevious ·.content) = false := by
    cases head : lines.head? with
    | none => rfl
    | some next => exact (Bool.or_eq_false_iff.mp (parts next head)).2
  rw [openEnds]
  simp only [apart, Bool.or_false, Bool.or_eq_true, decide_eq_true_eq]
  split <;> rfl

/-- The ends of logical lines, told from their physical lines. -/
theorem openEnds_describeRuns {reader : LogicalReader} (same : reader.continuation = k) {t skipped rest : Text}
    {runs : List (List PhysicalLine)} (text : t = skipped ++ rest) (grouped : k.group (physicalLines rest) = runs)
    (place : reader.position = byteSize skipped) :
    ((describeRuns reader runs).filter fun line => !k.continuesCurrent (line.last t).content).filterMap (·.terminator? t) =
      k.openEnds reader.position (physicalLines rest) := by
  induction runs generalizing rest skipped reader with
  | nil =>
    have nothing : physicalLines rest = [] := Classical.not_not.mp fun more => k.group_ne_nil more grouped
    rw [nothing]
    rfl
  | cons run runs ih =>
    obtain ⟨pieces, _, single, others, _⟩ := group_pieces grouped
    obtain ⟨nonempty, _, parts⟩ := group_eq_cons grouped
    have lines : physicalLines rest = run ++ runs.flatten := by
      rw [← List.flatten_cons, ← grouped, k.group_flatten]
    have own : physicalLines (source run) = run := by
      rw [← k.group_flatten (physicalLines (source run)), single]
      simp
    have raw : (reader.describe run).raw t = source run := LogicalReader.raw_describe (by rw [text, pieces]) place
    obtain ⟨front, last, rfl⟩ : ∃ front last, run = front ++ [last] := ⟨_, _, (List.dropLast_concat_getLast nonempty).symm⟩
    have ending : (reader.describe (front ++ [last])).last t = last := by simp [LogicalLine.last, raw, own]
    have text' : t = (skipped ++ source (front ++ [last])) ++ source runs.flatten := by rw [List.append_assoc, ← pieces, text]
    let reader' := { reader with
      position := (reader.describe (front ++ [last])).stop, line := reader.line + (front ++ [last]).length }
    have place' : reader'.position = byteSize (skipped ++ source (front ++ [last])) := by
      simp [reader', LogicalReader.describe, place]
    have same' : reader'.continuation = k := same
    have behind := ih same' text' others place'
    have others' : physicalLines (source runs.flatten) = runs.flatten := by
      rw [← k.group_flatten (physicalLines (source runs.flatten)), others]
    have stop : reader'.position = reader.position + byteSize (source front) + byteSize last.whole := by
      simp [reader', LogicalReader.describe, source, Nat.add_assoc]
    have stop' : (reader.describe (front ++ [last])).stop = reader'.position := rfl
    rw [others'] at behind
    rw [lines, List.append_assoc, List.singleton_append, openEnds_chain (group_chain grouped),
      openEnds_parts _ fun next head => parts last next (by simp) head, ← stop, ← behind, describeRuns]
    cases continues : k.continuesCurrent last.content with
    | true => simp [ending, continues, reader']
    | false =>
      by_cases bare : last.terminator = [] <;> simp [ending, continues, reader', LogicalLine.terminator?, bare]

theorem openEnds_logicalLines (k : Continuation) (t : Text) :
    ((logicalLines k t).filter fun line => !k.continuesCurrent (line.last t).content).filterMap (·.terminator? t) =
      k.openEnds 0 (physicalLines t) := by
  have same : (LogicalReader.ofText k t).continuation = k := rfl
  exact openEnds_describeRuns same (List.nil_append t).symm rfl rfl

/-! ### Text inside a line -/

theorem continuesCurrent_append {w : Text} (solid : k.continuesCurrent w = false) (content : Text) :
    k.continuesCurrent (w ++ content) = k.continuesCurrent content := by
  unfold continuesCurrent at solid ⊢
  cases marker : k.currentLine with
  | none => rfl
  | some m =>
    simp only [marker, dropEndWhile, List.getLast?_reverse, List.reverse_append, List.dropWhile_append] at solid ⊢
    by_cases blank : (content.reverse.dropWhile isBlank).isEmpty = true
    · rw [if_pos blank, List.isEmpty_iff.mp blank]
      exact solid
    · have more : content.reverse.dropWhile isBlank ≠ [] := by simpa using blank
      obtain ⟨x, rest, eq⟩ := List.exists_cons_of_ne_nil more
      rw [if_neg blank, eq]
      rfl

theorem physicalLines_inside_append {w : Text} (inside : ∀ x ∈ w, isLineBreak x = false) (t : Text) :
    physicalLines (w ++ t) = match physicalLines t with
      | [] => if w = [] then [] else [⟨w, []⟩]
      | line :: lines => ⟨w ++ line.content, line.terminator⟩ :: lines := by
  induction w with
  | nil =>
    cases eq : physicalLines t <;> simp [eq]
  | cons x w ih =>
    rw [List.cons_append, physicalLines_inside (inside x List.mem_cons_self), ih fun y member => inside y (List.mem_cons_of_mem _ member)]
    cases physicalLines t with
    | nil => by_cases empty : w = [] <;> simp [empty]
    | cons line lines => rfl

theorem openEnds_inside {w : Text} (inside : ∀ x ∈ w, isLineBreak x = false) (solid : k.continuesCurrent w = false)
    (position : Nat) (t : Text) :
    k.openEnds position (physicalLines (w ++ t)) = k.openEnds (position + byteSize w) (physicalLines t) := by
  rw [physicalLines_inside_append inside]
  cases physicalLines t with
  | nil =>
    by_cases empty : w = [] <;> simp [empty, openEnds]
  | cons line lines =>
    simp only [openEnds, continuesCurrent_append solid, PhysicalLine.whole, List.append_assoc, byteSize_append, Nat.add_assoc]

/-! ### Text that rules see -/

/-- What rules see of logical lines is the first of them, and it is not joined to what is behind it. -/
theorem logical_pieces (k : Continuation) {t : Text} (nonempty : t ≠ []) :
    ∃ more, t = Window.logical.view k t ++ more ∧
      ((physicalLines (Window.logical.view k t)).IsChain fun line next => k.joins line next = true) ∧
      (more ≠ [] → k.Seam (Window.logical.view k t) more) := by
  obtain ⟨run, runs, eq⟩ := List.exists_cons_of_ne_nil (k.group_ne_nil (mt physicalLines_eq_nil.mp nonempty))
  obtain ⟨pieces, _, single, _, seam⟩ := group_pieces eq
  have own : physicalLines (source run) = run := by
    rw [← k.group_flatten (physicalLines (source run)), single]
    simp
  have first : k.firstRun t = run := by rw [firstRun_eq_headD, eq, List.headD_cons]
  have view : Window.logical.view k t = source run := congrArg source first
  rw [view, own]
  exact ⟨_, pieces, group_chain eq, seam⟩

theorem continuesCurrent_last {w : Text} {x : Char} (last : w.getLast? = some x) (solid : isBlank x = false)
    (unmarked : k.currentLine ≠ some x) : k.continuesCurrent w = false := by
  unfold continuesCurrent
  cases marker : k.currentLine with
  | none => rfl
  | some m =>
    obtain ⟨front, rfl⟩ := List.getLast?_eq_some_iff.mp last
    have different : x ≠ m := fun same => unmarked (same ▸ marker)
    simp [dropEndWhile, solid, different]

/-- A text that ends inside a line, cut behind its last line break. -/
theorem exists_currentLine (w : Text) : ∃ front current, w = front ++ current ∧ (∀ x ∈ current, isLineBreak x = false) ∧
    (front = [] ∨ ∃ c, front.getLast? = some c ∧ isLineBreak c = true) := by
  refine ⟨(w.reverse.dropWhile (!isLineBreak ·)).reverse, (w.reverse.takeWhile (!isLineBreak ·)).reverse, ?_, ?_, ?_⟩
  · rw [← List.reverse_append, List.takeWhile_append_dropWhile, List.reverse_reverse]
  · intro x member
    have inside := List.all_eq_true.mp List.all_takeWhile x (List.mem_reverse.mp member)
    simpa using inside
  · cases eq : w.reverse.dropWhile (!isLineBreak ·) with
    | nil => exact .inl rfl
    | cons c front =>
      refine .inr ⟨c, by simp, ?_⟩
      have stopped := List.head?_dropWhile_not (!isLineBreak ·) w.reverse
      rw [eq] at stopped
      simpa using stopped

/-- No logical line ends inside what a rule takes of it, if that ends inside a line and not with a marker. -/
theorem openEnds_view {w seen rest t : Text} {x : Char} (view : Window.logical.view k t = w ++ seen) (text : t = w ++ rest)
    (last : w.getLast? = some x) (inside : isLineBreak x = false) (solid : isBlank x = false)
    (unmarked : k.currentLine ≠ some x) (position : Nat) :
    k.openEnds position (physicalLines t) = k.openEnds (position + byteSize w) (physicalLines rest) := by
  have nonempty : w ≠ [] := by
    rintro rfl
    cases last
  obtain ⟨more, pieces, chain, seam⟩ := logical_pieces k (t := t) (by simp [text, nonempty])
  obtain ⟨front, current, rfl, within, broken⟩ := exists_currentLine w
  have more_current : current ≠ [] := by
    rintro rfl
    rcases broken with rfl | ⟨c, ends, hc⟩
    · exact nonempty rfl
    · rw [List.append_nil] at last
      obtain rfl := Option.some.inj (ends.symm.trans last)
      rw [inside] at hc
      cases hc
  have last' : current.getLast? = some x := by rw [← getLast?_behind front more_current, last]
  have tail := openEnds_inside within (continuesCurrent_last last' solid unmarked) (position + byteSize front) rest
  rw [byteSize_append, ← Nat.add_assoc, ← tail, text, List.append_assoc]
  rcases broken with rfl | ends
  · rfl
  · -- The lines in front of the last one are joined, those in the rest of the text begin with the same one.
    have between (behind : Text) : LineSeam front (current ++ behind) := by
      refine ⟨ends, fun ⟨_, feed⟩ => ?_⟩
      obtain ⟨c, current, rfl⟩ := List.exists_cons_of_ne_nil more_current
      obtain rfl := Option.some.inj feed
      exact absurd (within '\n' List.mem_cons_self) (by decide)
    have same : firstLine (current ++ rest) = firstLine (current ++ seen) := by
      have behind : rest = seen ++ more := by
        have whole := text.symm.trans pieces
        rw [view, List.append_assoc] at whole
        simpa using whole
      by_cases final : more = []
      · rw [behind, final, List.append_nil]
      · have seam := seam final
        rw [view, List.append_assoc] at seam
        rw [behind, ← List.append_assoc]
        exact firstLine_append (seam.suffix (by simp [more_current])).line
    have lines (behind : Text) : ∃ others, physicalLines (current ++ behind) = firstLine (current ++ behind) :: others :=
      ⟨_, physicalLines_eq_firstLine (by simp [more_current])⟩
    obtain ⟨others, eq⟩ := lines seen
    obtain ⟨others', eq'⟩ := lines rest
    rw [view, List.append_assoc, physicalLines_append (between seen), eq, ← same] at chain
    rw [physicalLines_append (between rest), eq', openEnds_chain chain, source_physicalLines]

end Continuation

end Netlist
