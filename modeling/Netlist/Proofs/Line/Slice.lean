import Netlist.Proofs.Line.Seam

/-!
Logical lines as pieces of their text. The byte range of each one holds the physical lines of its run,
and behind it the other runs are those of the text that is left.
-/
namespace Netlist

/-- The text up to a byte offset; an offset inside a character takes that character too. -/
def takeBytes : Nat → Text → Text
  | _, [] => []
  | 0, _ => []
  | n + 1, c :: rest => c :: takeBytes (n + 1 - c.utf8Size) rest

def LogicalLine.raw (t : Text) (line : LogicalLine) : Text := takeBytes (line.stop - line.start) (dropBytes line.start t)

theorem exists_byteSize_cons (c : Char) (t : Text) : ∃ n, byteSize (c :: t) = n + 1 ∧ n + 1 - c.utf8Size = byteSize t := by
  have positive := c.utf8Size_pos
  refine ⟨c.utf8Size + byteSize t - 1, ?_, ?_⟩
  · rw [byteSize_cons]
    omega
  · omega

theorem dropBytes_append (left right : Text) : dropBytes (byteSize left) (left ++ right) = right := by
  induction left with
  | nil => cases right <;> rfl
  | cons c left ih =>
    obtain ⟨n, eq, less⟩ := exists_byteSize_cons c left
    rw [eq, List.cons_append, dropBytes, less, ih]

theorem takeBytes_append (left right : Text) : takeBytes (byteSize left) (left ++ right) = left := by
  induction left with
  | nil => cases right <;> rfl
  | cons c left ih =>
    obtain ⟨n, eq, less⟩ := exists_byteSize_cons c left
    rw [eq, List.cons_append, takeBytes, less, ih]

namespace Continuation

theorem source_physicalLines (t : Text) : source (physicalLines t) = t := flatten_physicalLines t

theorem source_append (lines more : List PhysicalLine) : source (lines ++ more) = source lines ++ source more :=
  List.flatMap_append

theorem source_ne_nil {lines : List PhysicalLine} (eq : physicalLines (source lines) = lines) (nonempty : lines ≠ []) :
    source lines ≠ [] := by
  intro empty
  rw [empty] at eq
  exact nonempty eq.symm

end Continuation

open Continuation in
theorem first_physicalLine {t : Text} {line : PhysicalLine} {more : List PhysicalLine} (eq : physicalLines t = line :: more) :
    physicalLines line.whole = [line] ∧ physicalLines (source more) = more ∧
      (more ≠ [] → LineSeam line.whole (source more)) := by
  fun_induction physicalLines t generalizing line more with
  | case1 => cases eq
  | case2 rest ih =>
    obtain ⟨rfl, rfl⟩ := List.cons.inj eq
    refine ⟨rfl, by rw [source_physicalLines], fun _ => ⟨⟨'\n', rfl, rfl⟩, fun pair => ?_⟩⟩
    exact absurd pair.1 (by decide)
  | case3 c rest pair hc ih =>
    obtain ⟨rfl, rfl⟩ := List.cons.inj eq
    rw [source_physicalLines]
    refine ⟨physicalLines_break hc (by simp), rfl, fun _ => ⟨⟨c, rfl, hc⟩, fun split => ?_⟩⟩
    obtain rfl := Option.some.inj split.1
    cases rest with
    | nil => cases split.2
    | cons d rest =>
      obtain rfl := Option.some.inj split.2
      exact pair rest rfl rfl
  | case4 c rest pair hc empty ih =>
    obtain ⟨rfl, rfl⟩ := List.cons.inj eq
    exact ⟨physicalLines_inside (by simpa using hc), rfl, fun nonempty => absurd rfl nonempty⟩
  | case5 c rest pair hc first lines eqRest ih =>
    obtain ⟨rfl, rfl⟩ := List.cons.inj eq
    obtain ⟨single, others, seam⟩ := ih eqRest
    refine ⟨?_, others, fun nonempty => (seam nonempty).extend [c]⟩
    change physicalLines (c :: first.whole) = _
    rw [physicalLines_inside (by simpa using hc), single]

open Continuation in
/-- Some lines of a text, and the others behind them, are the lines of a piece each. -/
theorem physicalLines_pieces {t : Text} {lines more : List PhysicalLine} (eq : physicalLines t = lines ++ more) :
    physicalLines (source lines) = lines ∧ physicalLines (source more) = more ∧
      (lines ≠ [] → more ≠ [] → LineSeam (source lines) (source more)) := by
  induction lines generalizing t with
  | nil =>
    refine ⟨rfl, ?_, fun nonempty => absurd rfl nonempty⟩
    rw [← List.nil_append more, ← eq, source_physicalLines]
  | cons line lines ih =>
    obtain ⟨single, others, seam⟩ := first_physicalLine eq
    obtain ⟨first, second, seam'⟩ := ih others
    have whole : source (line :: lines) = line.whole ++ source lines := rfl
    rw [whole]
    cases lines with
    | nil => exact ⟨by simpa [source] using single, second, fun _ nonempty => by simpa [source] using seam nonempty⟩
    | cons next lines =>
      have between : LineSeam line.whole (source (next :: lines) ++ source more) := by
        rw [← source_append]
        exact seam (List.cons_ne_nil _ _)
      have joined := physicalLines_append (between.shorten)
      refine ⟨by rw [joined, single, first, List.singleton_append], second, fun _ nonempty => ?_⟩
      exact (seam' (List.cons_ne_nil _ _) nonempty).extend line.whole

namespace Continuation

theorem group_eq_cons {k : Continuation} {lines run : List PhysicalLine} {runs : List (List PhysicalLine)}
    (eq : k.group lines = run :: runs) :
    run ≠ [] ∧ k.group runs.flatten = runs ∧
      ∀ last next, run.getLast? = some last → runs.flatten.head? = some next → k.joins last next = false := by
  induction lines generalizing run runs with
  | nil => cases eq
  | cons line lines ih =>
    cases lines with
    | nil =>
      obtain ⟨rfl, rfl⟩ := List.cons.inj eq
      exact ⟨List.cons_ne_nil _ _, rfl, fun _ _ _ starts => nomatch starts⟩
    | cons next lines =>
      obtain ⟨run', runs', eq'⟩ := List.exists_cons_of_ne_nil (k.group_ne_nil (List.cons_ne_nil next lines))
      have flat : (run' :: runs').flatten = next :: lines := by rw [← eq', k.group_flatten]
      rw [k.group_cons_cons line eq'] at eq
      obtain ⟨nonempty, others, parts⟩ := ih eq'
      split at eq
      · obtain ⟨rfl, rfl⟩ := List.cons.inj eq
        refine ⟨List.cons_ne_nil _ _, others, fun last next' ends => parts last next' ?_⟩
        rwa [List.getLast?_cons, List.getLast?_eq_some_getLast nonempty, Option.getD_some,
          ← List.getLast?_eq_some_getLast nonempty] at ends
      · next apart =>
        obtain ⟨rfl, rfl⟩ := List.cons.inj eq
        refine ⟨List.cons_ne_nil _ _, by rw [flat, eq'], fun last next' ends starts => ?_⟩
        rw [flat] at starts
        obtain rfl := Option.some.inj ends
        obtain rfl := Option.some.inj starts
        simpa using apart

/-- The first run of a text, and the text behind it with the other runs. -/
theorem group_pieces {k : Continuation} {t : Text} {run : List PhysicalLine} {runs : List (List PhysicalLine)}
    (eq : k.group (physicalLines t) = run :: runs) :
    t = source run ++ source runs.flatten ∧ source run ≠ [] ∧ k.group (physicalLines (source run)) = [run] ∧
      k.group (physicalLines (source runs.flatten)) = runs ∧
      (source runs.flatten ≠ [] → k.Seam (source run) (source runs.flatten)) := by
  obtain ⟨nonempty, others, parts⟩ := group_eq_cons eq
  have lines : physicalLines t = run ++ runs.flatten := by
    rw [← List.flatten_cons, ← eq, k.group_flatten]
  obtain ⟨first, second, seam⟩ := physicalLines_pieces lines
  have single : k.group run = [run] := by
    have joined := k.group_append parts
    rw [← lines, eq, others] at joined
    exact List.append_cancel_right joined.symm
  refine ⟨?_, source_ne_nil first nonempty, by rw [first, single], by rw [second, others], fun more => ?_⟩
  · rw [← source_append, ← lines, source_physicalLines]
  · have behind := physicalLines_eq_firstLine more
    rw [second] at behind
    have following : runs.flatten ≠ [] := by
      rw [behind]
      exact List.cons_ne_nil _ _
    refine ⟨seam nonempty following, fun last ends => ?_⟩
    rw [first] at ends
    exact parts last _ ends ((congrArg List.head? behind).trans rfl)

end Continuation

/-- What rules see ends between two lines, or with the text. -/
theorem Window.view_pieces (w : Window) (k : Continuation) (rest : Text) :
    ∃ more, rest = w.view k rest ++ more ∧ (more ≠ [] → LineSeam (w.view k rest) more) := by
  by_cases empty : rest = []
  · subst empty
    cases w <;> exact ⟨[], rfl, fun more => absurd rfl more⟩
  · cases w with
    | line =>
      have lines := physicalLines_eq_firstLine empty
      obtain ⟨_, _, seam⟩ := first_physicalLine lines
      refine ⟨Continuation.source (physicalLines (rest.drop (firstLine rest).whole.length)), ?_, fun more => seam ?_⟩
      · have whole := Continuation.source_physicalLines rest
        rw [lines] at whole
        exact whole.symm
      · intro nothing
        rw [nothing] at more
        exact more rfl
    | logical =>
      obtain ⟨run, runs, eq⟩ := List.exists_cons_of_ne_nil (k.group_ne_nil (mt physicalLines_eq_nil.mp empty))
      obtain ⟨pieces, _, _, _, seam⟩ := Continuation.group_pieces eq
      have first : k.firstRun rest = run := by rw [Continuation.firstRun_eq_headD, eq, List.headD_cons]
      change ∃ more, rest = Continuation.source (k.firstRun rest) ++ more ∧ (more ≠ [] → LineSeam (Continuation.source (k.firstRun rest)) more)
      rw [first]
      exact ⟨_, pieces, fun more => (seam more).line⟩
    | full => exact ⟨[], (List.append_nil rest).symm, fun more => absurd rfl more⟩

theorem Window.view_ne_nil (w : Window) (k : Continuation) {rest : Text} (nonempty : rest ≠ []) : w.view k rest ≠ [] := by
  obtain ⟨more, pieces, seam⟩ := w.view_pieces k rest
  by_cases last : more = []
  · rw [last, List.append_nil] at pieces
    exact pieces ▸ nonempty
  · exact (seam last).ne_nil

theorem Window.head?_view (w : Window) (k : Continuation) (rest : Text) : (w.view k rest).head? = rest.head? := by
  obtain ⟨more, pieces, _⟩ := w.view_pieces k rest
  by_cases empty : rest = []
  · rw [empty] at pieces ⊢
    rw [(List.append_eq_nil_iff.mp pieces.symm).1]
  · obtain ⟨x, seen, eq⟩ := List.exists_cons_of_ne_nil (w.view_ne_nil k empty)
    conv => rhs; rw [pieces]
    rw [eq]
    rfl

theorem LogicalReader.raw_describe {reader : LogicalReader} {t skipped rest : Text} {run : List PhysicalLine}
    (eq : t = skipped ++ (Continuation.source run ++ rest)) (place : reader.position = byteSize skipped) :
    (reader.describe run).raw t = Continuation.source run := by
  rw [LogicalLine.raw, describe, Nat.add_sub_cancel_left, place, eq, dropBytes_append, takeBytes_append]

end Netlist
