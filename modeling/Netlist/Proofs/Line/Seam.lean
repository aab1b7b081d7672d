import Netlist.Line.Logical
import Netlist.Line.Window

/-!
Where a text comes apart. Cut between two lines it has the lines of both parts, and cut between two
logical lines it has the runs of both parts. What rules see never reaches across such a cut, from
wherever in the left part they look.
-/
namespace Netlist

/-- Whether a cut separates a carriage return from the line feed that belongs to it. -/
def SplitsPair (left right : Text) : Prop := left.getLast? = some '\r' ∧ right.head? = some '\n'

theorem firstTerminator_return {rest : Text} (single : rest.head? ≠ some '\n') : firstTerminator ('\r' :: rest) = ['\r'] := by
  unfold firstTerminator
  split
  · next heq =>
    rw [(List.cons.inj heq).2] at single
    exact absurd rfl single
  · next heq =>
    obtain ⟨rfl, _⟩ := List.cons.inj heq
    rfl
  · next heq => cases heq

theorem firstTerminator_cases {t : Text} (broken : firstTerminator t ≠ []) :
    (∃ rest, t = '\r' :: '\n' :: rest) ∨ (∃ rest, t = '\n' :: rest) ∨ ∃ rest, t = '\r' :: rest ∧ rest.head? ≠ some '\n' := by
  unfold firstTerminator at broken
  split at broken
  · next rest => exact .inl ⟨rest, rfl⟩
  · next c rest pair =>
    split at broken
    · next hc =>
      simp only [isLineBreak, Bool.or_eq_true, beq_iff_eq] at hc
      rcases hc with rfl | rfl
      · exact .inr (.inl ⟨rest, rfl⟩)
      · refine .inr (.inr ⟨rest, rfl, fun feed => ?_⟩)
        obtain ⟨more, rfl⟩ := List.head?_eq_some_iff.mp feed
        exact pair more rfl rfl
    · exact absurd rfl broken
  · exact absurd rfl broken

theorem firstTerminator_whole {t rest : Text} (eq : t = firstTerminator t ++ rest) : ¬ SplitsPair (firstTerminator t) rest := by
  rintro ⟨last, feed⟩
  have broken : firstTerminator t ≠ [] := by
    intro nothing
    rw [nothing] at last
    cases last
  rcases firstTerminator_cases broken with ⟨more, rfl⟩ | ⟨more, rfl⟩ | ⟨more, rfl, single⟩
  · exact absurd last (by simp [firstTerminator])
  · exact absurd last (by simp [firstTerminator, isLineBreak])
  · rw [firstTerminator_return single] at eq
    obtain rfl : more = rest := (List.cons.inj eq).2
    exact single feed

theorem firstTerminator_append {t rest : Text} (broken : firstTerminator t ≠ []) (whole : ¬ SplitsPair (firstTerminator t) rest) :
    firstTerminator (firstTerminator t ++ rest) = firstTerminator t := by
  rcases firstTerminator_cases broken with ⟨more, rfl⟩ | ⟨more, rfl⟩ | ⟨more, rfl, single⟩
  · rfl
  · rfl
  · rw [firstTerminator_return single] at whole ⊢
    exact firstTerminator_return fun feed => whole ⟨rfl, feed⟩

theorem physicalLines_terminator {t rest : Text} (broken : firstTerminator t ≠ []) (eq : t = firstTerminator t ++ rest) :
    physicalLines t = ⟨[], firstTerminator t⟩ :: physicalLines rest := by
  have first : firstLine t = ⟨[], firstTerminator t⟩ := by
    rcases firstTerminator_cases broken with ⟨more, rfl⟩ | ⟨more, rfl⟩ | ⟨more, rfl, _⟩ <;>
      simp [firstLine, isLineBreak]
  have nonempty : t ≠ [] := by
    rintro rfl
    exact broken rfl
  rw [physicalLines_eq_firstLine nonempty, first]
  have behind : t.drop (firstTerminator t).length = rest :=
    (congrArg (List.drop (firstTerminator t).length) eq).trans List.drop_left
  exact congrArg (fun t => _ :: physicalLines t) behind

structure LineSeam (left right : Text) : Prop where
  broken : ∃ c, left.getLast? = some c ∧ isLineBreak c = true
  whole : ¬ SplitsPair left right

theorem LineSeam.ne_nil {left right : Text} (seam : LineSeam left right) : left ≠ [] := by
  obtain ⟨c, last, _⟩ := seam.broken
  rintro rfl
  cases last

theorem getLast?_behind (skipped : Text) {t : Text} (more : t ≠ []) : (skipped ++ t).getLast? = t.getLast? := by
  rw [List.getLast?_append, List.getLast?_eq_some_getLast more, Option.some_or]

theorem LineSeam.suffix {skipped left right : Text} (seam : LineSeam (skipped ++ left) right) (more : left ≠ []) :
    LineSeam left right := by
  have broken := seam.broken
  have whole := seam.whole
  rw [SplitsPair] at whole
  rw [getLast?_behind skipped more] at broken whole
  exact ⟨broken, whole⟩

theorem LineSeam.extend {left right : Text} (seam : LineSeam left right) (skipped : Text) : LineSeam (skipped ++ left) right := by
  have broken := seam.broken
  have whole := seam.whole
  rw [SplitsPair, ← getLast?_behind skipped seam.ne_nil] at whole
  rw [← getLast?_behind skipped seam.ne_nil] at broken
  exact ⟨broken, whole⟩

theorem LineSeam.shorten {left right more : Text} (seam : LineSeam left (right ++ more)) : LineSeam left right := by
  refine ⟨seam.broken, fun split => seam.whole ⟨split.1, ?_⟩⟩
  rw [List.head?_append, split.2, Option.some_or]

theorem physicalLines_break {c : Char} {rest : Text} (hc : isLineBreak c = true) (single : ¬ (c = '\r' ∧ rest.head? = some '\n')) :
    physicalLines (c :: rest) = ⟨[], [c]⟩ :: physicalLines rest := by
  conv => lhs; rw [physicalLines.eq_def]
  split
  · next heq => cases heq
  · next heq =>
    obtain ⟨rfl, rfl⟩ := List.cons.inj heq
    exact absurd ⟨rfl, rfl⟩ single
  · next heq =>
    obtain ⟨rfl, rfl⟩ := List.cons.inj heq
    rw [if_pos hc]

theorem physicalLines_inside {c : Char} {rest : Text} (hc : isLineBreak c = false) :
    physicalLines (c :: rest) = match physicalLines rest with
      | [] => [⟨[c], []⟩]
      | line :: lines => ⟨c :: line.content, line.terminator⟩ :: lines := by
  conv => lhs; rw [physicalLines.eq_def]
  split
  · next heq => cases heq
  · next heq =>
    obtain ⟨rfl, _⟩ := List.cons.inj heq
    cases hc
  · next heq =>
    obtain ⟨rfl, rfl⟩ := List.cons.inj heq
    exact if_neg (by simp [hc])

theorem physicalLines_append {left right : Text} (seam : LineSeam left right) :
    physicalLines (left ++ right) = physicalLines left ++ physicalLines right := by
  have later {c : Char} {rest : Text} (more : rest ≠ []) (seam : LineSeam (c :: rest) right) : LineSeam rest right :=
    LineSeam.suffix (show LineSeam ([c] ++ rest) right from seam) more
  fun_induction physicalLines left with
  | case1 => exact absurd rfl seam.ne_nil
  | case2 rest ih =>
    by_cases empty : rest = []
    · subst empty
      rfl
    · have behind := ih (later empty (later (List.cons_ne_nil _ _) seam))
      simp only [List.cons_append, physicalLines, behind]
  | case3 c rest pair hc ih =>
    by_cases empty : rest = []
    · subst empty
      have single : ¬ (c = '\r' ∧ right.head? = some '\n') := fun pair => seam.whole ⟨by simp [pair.1], pair.2⟩
      exact physicalLines_break hc single
    · have single : ¬ (c = '\r' ∧ (rest ++ right).head? = some '\n') := by
        rintro ⟨rfl, feed⟩
        obtain ⟨d, rest, rfl⟩ := List.exists_cons_of_ne_nil empty
        obtain rfl := Option.some.inj feed
        exact pair rest rfl rfl
      rw [List.cons_append, physicalLines_break hc single, ih (later empty seam), List.cons_append]
  | case4 c rest pair hc empty ih =>
    have nothing := physicalLines_eq_nil.mp empty
    subst nothing
    obtain ⟨d, last, broken⟩ := seam.broken
    obtain rfl := Option.some.inj last
    exact absurd broken hc
  | case5 c rest pair hc line lines eq ih =>
    have more : rest ≠ [] := by
      rintro rfl
      cases eq
    have behind := ih (later more seam)
    rw [eq] at behind
    rw [List.cons_append, physicalLines_inside (by simpa using hc), behind]
    rfl

theorem firstLine_append {left right : Text} (seam : LineSeam left right) : firstLine (left ++ right) = firstLine left := by
  have more := seam.ne_nil
  have lines := physicalLines_append seam
  rw [physicalLines_eq_firstLine more, physicalLines_eq_firstLine (by simp [more])] at lines
  exact (List.cons.inj lines).1

/-- What is left of a text ends with what is left of its last line. -/
theorem last_content_suffix (skipped : Text) {t : Text} (more : t ≠ []) :
    ∃ last last', (physicalLines t).getLast? = some last ∧ (physicalLines (skipped ++ t)).getLast? = some last' ∧
      last.content <:+ last'.content := by
  have some_last {t : Text} (more : t ≠ []) : ∃ last, (physicalLines t).getLast? = some last := by
    have lines := mt physicalLines_eq_nil.mp more
    exact ⟨_, List.getLast?_eq_some_getLast lines⟩
  induction skipped with
  | nil =>
    obtain ⟨last, eq⟩ := some_last more
    exact ⟨last, last, eq, eq, List.suffix_rfl⟩
  | cons c skipped ih =>
    obtain ⟨last, last', eq, eq', suffix⟩ := ih
    obtain ⟨line, lines, eqLines⟩ := List.exists_cons_of_ne_nil (mt physicalLines_eq_nil.mp (by simp [more] : skipped ++ t ≠ []))
    rw [List.cons_append]
    by_cases hc : isLineBreak c = true
    · by_cases pair : c = '\r' ∧ (skipped ++ t).head? = some '\n'
      · obtain ⟨rfl, feed⟩ := pair
        obtain ⟨rest, whole⟩ : ∃ rest, skipped ++ t = '\n' :: rest := by
          obtain ⟨d, rest, whole⟩ := List.exists_cons_of_ne_nil (by simp [more] : skipped ++ t ≠ [])
          rw [whole] at feed
          obtain rfl := Option.some.inj feed
          exact ⟨rest, whole⟩
        rw [whole] at eq' ⊢
        rw [physicalLines_break rfl (by simp), List.getLast?_cons] at eq'
        rw [physicalLines, List.getLast?_cons]
        obtain rfl := Option.some.inj eq'
        refine ⟨last, _, eq, rfl, ?_⟩
        cases tail : (physicalLines rest).getLast? with
        | none => simpa [tail] using suffix
        | some line => simpa [tail] using suffix
      · rw [physicalLines_break hc pair, List.getLast?_cons, eq']
        exact ⟨last, last', eq, rfl, suffix⟩
    · rw [physicalLines_inside (by simpa using hc), eqLines]
      rw [eqLines, List.getLast?_cons] at eq'
      obtain rfl := Option.some.inj eq'
      cases tail : lines.getLast? with
      | none =>
        simp only [tail, Option.getD_none] at suffix
        refine ⟨last, _, eq, by simp [List.getLast?_cons, tail]; rfl, ?_⟩
        exact suffix.trans (List.suffix_cons _ _)
      | some line' => exact ⟨last, line', eq, by simp [List.getLast?_cons, tail], by simpa [tail] using suffix⟩

namespace Continuation

theorem continuesCurrent_of_suffix {k : Continuation} {content rest : Text} (suffix : rest <:+ content)
    (continues : k.continuesCurrent rest = true) : k.continuesCurrent content = true := by
  unfold continuesCurrent at continues ⊢
  cases marker : k.currentLine with
  | none => simp [marker] at continues
  | some m =>
    obtain ⟨skipped, rfl⟩ := suffix
    simp only [marker, dropEndWhile, List.getLast?_reverse, List.reverse_append, beq_iff_eq] at continues ⊢
    have more : rest.reverse.dropWhile isBlank ≠ [] := by
      intro empty
      rw [empty] at continues
      cases continues
    rw [List.dropWhile_append, if_neg (by simpa using more), List.head?_append, continues]
    rfl

theorem group_append (k : Continuation) {lines more : List PhysicalLine}
    (parts : ∀ line next, lines.getLast? = some line → more.head? = some next → k.joins line next = false) :
    k.group (lines ++ more) = k.group lines ++ k.group more := by
  induction lines with
  | nil => rfl
  | cons line lines ih =>
    cases lines with
    | nil =>
      cases more with
      | nil => rfl
      | cons next more =>
        obtain ⟨run, runs, eq⟩ := List.exists_cons_of_ne_nil (k.group_ne_nil (List.cons_ne_nil next more))
        rw [List.cons_append, List.nil_append, k.group_cons_cons line eq, parts line next rfl rfl, eq]
        rfl
    | cons next lines =>
      have behind := ih fun line' next' last head => parts line' next' (by simpa using last) head
      obtain ⟨run, runs, eq⟩ := List.exists_cons_of_ne_nil (k.group_ne_nil (List.cons_ne_nil next lines))
      rw [List.cons_append, eq, List.cons_append] at behind
      rw [List.cons_append, List.cons_append, k.group_cons_cons line behind, k.group_cons_cons line eq]
      split <;> rfl

structure Seam (k : Continuation) (left right : Text) : Prop where
  line : LineSeam left right
  parts : ∀ last, (physicalLines left).getLast? = some last → k.joins last (firstLine right) = false

theorem Seam.suffix {k : Continuation} {skipped left right : Text} (seam : k.Seam (skipped ++ left) right) (more : left ≠ []) :
    k.Seam left right where
  line := seam.line.suffix more
  parts last eq := by
    obtain ⟨last', whole, same, eq', suffix⟩ := last_content_suffix skipped more
    obtain rfl := Option.some.inj (same.symm.trans eq)
    have parts := seam.parts whole eq'
    rw [joins, Bool.or_eq_false_iff] at parts ⊢
    refine ⟨Bool.eq_false_iff.mpr fun continues => ?_, parts.2⟩
    exact Bool.eq_false_iff.mp parts.1 (continuesCurrent_of_suffix suffix continues)

theorem group_physicalLines_append {k : Continuation} {left right : Text} (seam : k.Seam left right) :
    k.group (physicalLines (left ++ right)) = k.group (physicalLines left) ++ k.group (physicalLines right) := by
  rw [physicalLines_append seam.line]
  refine k.group_append fun line next last head => ?_
  by_cases empty : right = []
  · subst empty
    cases head
  · rw [physicalLines_eq_firstLine empty] at head
    obtain rfl := Option.some.inj head
    exact seam.parts line last

theorem firstRun_append {k : Continuation} {left right : Text} (seam : k.Seam left right) :
    k.firstRun (left ++ right) = k.firstRun left := by
  have more : k.group (physicalLines left) ≠ [] := k.group_ne_nil (mt physicalLines_eq_nil.mp seam.line.ne_nil)
  obtain ⟨run, runs, eq⟩ := List.exists_cons_of_ne_nil more
  rw [firstRun_eq_headD, firstRun_eq_headD, group_physicalLines_append seam, eq]
  rfl

end Continuation

/-- What rules see does not reach across the end of a logical line. -/
theorem Window.view_append {w : Window} {k : Continuation} {left right : Text} (bounded : w ≠ .full) (seam : k.Seam left right) :
    w.view k (left ++ right) = w.view k left := by
  cases w with
  | line => exact congrArg PhysicalLine.whole (firstLine_append seam.line)
  | logical => exact congrArg Continuation.source (Continuation.firstRun_append seam)
  | full => exact absurd rfl bounded

end Netlist
