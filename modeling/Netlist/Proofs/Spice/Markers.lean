import Netlist.Proofs.Line.Seam
import Netlist.Proofs.Pattern.Greedy
import Netlist.Proofs.Pattern.Sets
import Netlist.Spice.Patterns

/-!
What the patterns of line breaks and continuation markers match. A line break is matched as a whole, so a
marker ends with a whole line break, or begins with one.
-/
namespace Netlist

namespace Pattern

theorem Consumes.inside_line {p : Pattern} {w : Text} (consumes : p.Consumes w) (feed : p.uses '\n' = false)
    (back : p.uses '\r' = false) : ∀ x ∈ w, isLineBreak x = false := by
  intro x member
  rw [Bool.eq_false_iff]
  intro broken
  have used := consumes.inside x member
  simp only [isLineBreak, Bool.or_eq_true, beq_iff_eq] at broken
  rcases broken with rfl | rfl
  · simp [feed] at used
  · simp [back] at used

end Pattern

namespace Spice

open Pattern Cursor

theorem lineBreak_reaches {c e : Cursor} (reached : lineBreak.Reaches c e) :
    (Spans (firstTerminator c.rest) c e ∧ firstTerminator c.rest ≠ []) ∨
      ∃ rest, c.rest = '\r' :: '\n' :: rest ∧ e.rest = '\n' :: rest := by
  rcases reached with ⟨d, ⟨x, rest, eq, first, rfl⟩, y, rest', eq', second, same⟩ | feed | back
  · obtain rfl : x = '\r' := eq_of_contains_single first
    obtain rfl : y = '\n' := eq_of_contains_single second
    obtain rfl : rest = '\n' :: rest' := eq'
    subst same
    rw [eq]
    exact .inl ⟨⟨eq, rfl, rfl⟩, List.cons_ne_nil _ _⟩
  · obtain ⟨x, rest, eq, inside, rfl⟩ := feed
    obtain rfl : x = '\n' := eq_of_contains_single inside
    rw [eq]
    exact .inl ⟨⟨eq, rfl, rfl⟩, List.cons_ne_nil _ _⟩
  · obtain ⟨x, rest, eq, inside, rfl⟩ := back
    obtain rfl : x = '\r' := eq_of_contains_single inside
    by_cases feed : rest.head? = some '\n'
    · obtain ⟨more, rfl⟩ := List.head?_eq_some_iff.mp feed
      exact .inr ⟨more, eq, rfl⟩
    · rw [eq, firstTerminator_return feed]
      exact .inl ⟨⟨eq, rfl, rfl⟩, List.cons_ne_nil _ _⟩

/-- Where a line break is matched, it is matched as a whole. -/
theorem lineBreak_head? {c e : Cursor} (head : (lineBreak.ends c).head? = some e) :
    Spans (firstTerminator c.rest) c e ∧ firstTerminator c.rest ≠ [] := by
  rcases lineBreak_reaches (reaches_of_mem_ends (List.mem_of_mem_head? head)) with whole | ⟨rest, eq, behind⟩
  · exact whole
  · obtain ⟨b, t, n⟩ := c
    obtain rfl : t = '\r' :: '\n' :: rest := eq
    have pair : (lineBreak.ends ⟨b, '\r' :: '\n' :: rest, n⟩).head? = some ⟨some '\n', rest, n + 2⟩ := rfl
    obtain rfl := Option.some.inj (pair.symm.trans head)
    exact absurd behind List.ne_cons_self

theorem lineBreak_ends_ne_nil {c : Cursor} (broken : firstTerminator c.rest ≠ []) : lineBreak.ends c ≠ [] := by
  obtain ⟨b, t, n⟩ := c
  rcases firstTerminator_cases broken with ⟨rest, rfl⟩ | ⟨rest, rfl⟩ | ⟨rest, rfl, single⟩
  · exact List.cons_ne_nil _ _
  · exact List.cons_ne_nil _ _
  · have back : (literally "\r").ends ⟨b, '\r' :: rest, n⟩ = [⟨some '\r', rest, n + 1⟩] :=
      ends_set_mem rfl (contains_single_self _)
    have back' : (literally "\r").ends ⟨b, '\r' :: rest, n⟩ ≠ [] := by simp [back]
    exact merge_ne_nil_right (merge_ne_nil_right back')

theorem contains_blanks : (CharSet.ofList (chars " \t")).contains = isBlank := by
  funext x
  simp [chars, isBlank, Bool.beq_eq_decide_eq]

theorem contains_noBreaks : (CharSet.complement (.ofList (chars "\r\n"))).contains = (!isLineBreak ·) := by
  funext x
  simp [CharSet.contains, chars, isLineBreak, Bool.beq_eq_decide_eq, Bool.and_comm]

theorem not_isLineBreak_of_isBlank {x : Char} (blank : isBlank x = true) : isLineBreak x = false := by
  simp only [isBlank, Bool.or_eq_true, beq_iff_eq] at blank
  rcases blank with rfl | rfl <;> rfl

theorem blanks_head? (c : Cursor) : ∃ e, (blanks.ends c).head? = some e ∧ Spans (c.rest.takeWhile isBlank) c e := by
  obtain ⟨e, head, spans⟩ := many_set_head? (.ofList (chars " \t")) c
  exact ⟨e, head, contains_blanks ▸ spans⟩

theorem blanks_inside {w : Text} (consumes : blanks.Consumes w) : ∀ x ∈ w, isBlank x = true :=
  fun x member => (congrFun contains_blanks x).symm.trans (consumes.inside x member)

/-- What is matched up to the end of a line goes up to its end. -/
theorem restOfLine_head? (c : Cursor) :
    ∃ e, (restOfLine.ends c).head? = some e ∧ Spans (c.rest.takeWhile (!isLineBreak ·)) c e := by
  obtain ⟨e, head, spans⟩ := many_set_head? (.complement (.ofList (chars "\r\n"))) c
  exact ⟨e, head, contains_noBreaks ▸ spans⟩

/-- A current-line marker ends with the line break behind it. -/
theorem currentLineMarker_head? {c e : Cursor} (head : (currentLineMarker.ends c).head? = some e) :
    ∃ w t, c.rest = '\\' :: w ++ t ∧ (∀ x ∈ w, isBlank x = true) ∧ firstTerminator t ≠ [] ∧
      Spans ('\\' :: w ++ firstTerminator t) c e := by
  obtain ⟨d, first, later⟩ := head?_collect head
  obtain ⟨d', second, last⟩ := head?_collect later
  obtain ⟨x, rest, eq, inside, rfl⟩ := reaches_of_mem_ends first
  obtain rfl : x = '\\' := eq_of_contains_single inside
  obtain ⟨w, spans, consumes⟩ := (reaches_of_mem_ends second).consumes
  obtain ⟨behind, broken⟩ := lineBreak_head? last
  have marker : Spans ['\\'] c ⟨some '\\', rest, c.offset + 1⟩ := ⟨eq, rfl, rfl⟩
  have before := marker.trans spans
  exact ⟨w, d'.rest, before.rest, blanks_inside consumes, broken, before.trans behind⟩

/-- A next-line marker begins with the line break before it. -/
theorem nextLineMarker_head? {c e : Cursor} (head : (nextLineMarker.ends c).head? = some e) :
    ∃ w, (∀ x ∈ w, isBlank x = true) ∧ firstTerminator c.rest ≠ [] ∧ Spans (firstTerminator c.rest ++ w ++ ['+']) c e := by
  obtain ⟨d, first, later⟩ := head?_collect head
  obtain ⟨d', second, last⟩ := head?_collect later
  obtain ⟨w, spans, consumes⟩ := (reaches_of_mem_ends second).consumes
  obtain ⟨x, rest, eq, inside, rfl⟩ := reaches_of_mem_ends (List.mem_of_mem_head? last)
  obtain rfl : x = '+' := eq_of_contains_single inside
  have blank := blanks_inside consumes
  have marker : Spans ['+'] d' ⟨some '+', rest, d'.offset + 1⟩ := ⟨eq, rfl, rfl⟩
  rcases lineBreak_reaches (reaches_of_mem_ends first) with ⟨whole, broken⟩ | ⟨more, _, behind⟩
  · exact ⟨w, blank, broken, (whole.trans spans).trans marker⟩
  · -- Behind half a pair comes its other half, which is no part of a marker.
    rw [spans.rest, eq] at behind
    cases w with
    | nil => cases behind
    | cons b w =>
      obtain rfl := (List.cons.inj behind).1
      exact absurd (blank '\n' List.mem_cons_self) (by decide)

theorem exists_nextLineMarker_head? {c : Cursor} (broken : firstTerminator c.rest ≠ [])
    (marked : ((c.rest.drop (firstTerminator c.rest).length).dropWhile isBlank).head? = some '+') :
    ∃ e, (nextLineMarker.ends c).head? = some e := by
  obtain ⟨d, head⟩ : ∃ d, (lineBreak.ends c).head? = some d := ⟨_, List.head?_eq_some_head (lineBreak_ends_ne_nil broken)⟩
  obtain ⟨spans, _⟩ := lineBreak_head? head
  obtain ⟨d', head', blank⟩ := blanks_head? d
  have behind : d'.rest = d.rest.dropWhile isBlank := by
    have parts : d.rest.takeWhile isBlank ++ d.rest.dropWhile isBlank = d.rest := List.takeWhile_append_dropWhile
    exact (List.append_cancel_left (parts.trans blank.rest)).symm
  rw [spans.drop, ← behind] at marked
  obtain ⟨rest, eq⟩ := List.head?_eq_some_iff.mp marked
  have last : (literally "+").ends d' = [⟨some '+', rest, d'.offset + 1⟩] := ends_set_mem eq (contains_single_self _)
  exact ⟨_, head?_collect_first head (head?_collect_first head' (congrArg List.head? last))⟩

end Spice

end Netlist
