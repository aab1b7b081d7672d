import Netlist.Lexer.Run
import Netlist.Proofs.Line.Seam

/-!
Lines and columns. Where a tokenization is can be told from the text it has consumed, as long as that
text does not end between a carriage return and its line feed.
-/
namespace Netlist

/-- How many line breaks a text holds, a carriage return with the line feed behind it counted once. -/
def lineBreaks : Text → Nat
  | [] => 0
  | '\r' :: '\n' :: rest => lineBreaks rest + 1
  | c :: rest => if isLineBreak c then lineBreaks rest + 1 else lineBreaks rest

def currentLine (t : Text) : Text := (t.reverse.takeWhile (!isLineBreak ·)).reverse

theorem lineBreaks_break {c : Char} {rest : Text} (hc : isLineBreak c = true) (single : ¬ (c = '\r' ∧ rest.head? = some '\n')) :
    lineBreaks (c :: rest) = lineBreaks rest + 1 := by
  conv => lhs; rw [lineBreaks.eq_def]
  split
  · next heq => cases heq
  · next heq =>
    obtain ⟨rfl, rfl⟩ := List.cons.inj heq
    exact absurd ⟨rfl, rfl⟩ single
  · next heq =>
    obtain ⟨rfl, rfl⟩ := List.cons.inj heq
    rw [if_pos hc]

theorem lineBreaks_inside {c : Char} {rest : Text} (hc : isLineBreak c = false) : lineBreaks (c :: rest) = lineBreaks rest := by
  conv => lhs; rw [lineBreaks.eq_def]
  split
  · next heq => cases heq
  · next heq =>
    obtain ⟨rfl, _⟩ := List.cons.inj heq
    cases hc
  · next heq =>
    obtain ⟨rfl, rfl⟩ := List.cons.inj heq
    rw [if_neg (by simp [hc])]

theorem lineBreaks_append {left right : Text} (whole : ¬ SplitsPair left right) :
    lineBreaks (left ++ right) = lineBreaks left + lineBreaks right := by
  have later {c : Char} {rest : Text} (whole : ¬ SplitsPair (c :: rest) right) (more : rest ≠ []) : ¬ SplitsPair rest right := by
    rwa [SplitsPair, List.getLast?_cons_of_ne_nil more] at whole
  fun_induction lineBreaks left with
  | case1 => simp
  | case2 rest ih =>
    by_cases empty : rest = []
    · subst empty
      simp [lineBreaks, Nat.add_comm]
    · have behind := ih (later (later whole (List.cons_ne_nil _ _)) empty)
      simp only [List.cons_append, lineBreaks, behind]
      omega
  | case3 c rest pair hc ih =>
    by_cases empty : rest = []
    · subst empty
      have single : ¬ (c = '\r' ∧ right.head? = some '\n') := fun pair => whole ⟨by simp [pair.1], pair.2⟩
      rw [List.singleton_append, lineBreaks_break hc single, lineBreaks, Nat.zero_add, Nat.add_comm]
    · have single : ¬ (c = '\r' ∧ (rest ++ right).head? = some '\n') := by
        rintro ⟨rfl, feed⟩
        obtain ⟨d, rest, rfl⟩ := List.exists_cons_of_ne_nil empty
        obtain rfl := Option.some.inj feed
        exact pair rest rfl rfl
      rw [List.cons_append, lineBreaks_break hc single, ih (later whole empty)]
      omega
  | case4 c rest pair hc ih =>
    have inside : isLineBreak c = false := by simpa using hc
    by_cases empty : rest = []
    · subst empty
      rw [List.singleton_append, lineBreaks_inside inside, lineBreaks, Nat.zero_add]
    · rw [List.cons_append, lineBreaks_inside inside, ih (later whole empty)]

theorem currentLine_append (left right : Text) :
    currentLine (left ++ right) = if right.any isLineBreak then currentLine right else currentLine left ++ right := by
  unfold currentLine
  rw [List.reverse_append]
  cases broken : right.any isLineBreak with
  | true =>
    have some_break : ¬ (right.reverse.takeWhile (!isLineBreak ·)).length = right.reverse.length := by
      intro whole
      obtain ⟨c, member, hc⟩ := List.any_eq_true.mp broken
      rw [← List.mem_reverse, ← (List.takeWhile_prefix _).eq_of_length whole] at member
      simpa [hc] using List.all_eq_true.mp List.all_takeWhile c member
    rw [List.takeWhile_append, if_neg some_break, if_pos rfl]
  | false =>
    have inside : ∀ c ∈ right.reverse, (!isLineBreak c) = true := by
      intro c member
      simpa using List.any_eq_false.mp broken c (List.mem_reverse.mp member)
    rw [List.takeWhile_append_of_pos inside, List.reverse_append, List.reverse_reverse]
    rfl

theorem currentLine_cons (c : Char) (rest : Text) :
    currentLine (c :: rest) = if rest.any isLineBreak then currentLine rest else if isLineBreak c then rest else c :: rest := by
  rw [← List.singleton_append, currentLine_append]
  cases hc : isLineBreak c <;> simp [currentLine, hc]

namespace Lexer.State
variable {κ : Type}

theorem advance_eq (s : State κ) (w : Text) :
    s.advance w = { s with
      line := s.line + lineBreaks w
      column := if w.any isLineBreak then 1 + (currentLine w).length else s.column + w.length
      startOfLine := w.getLast?.elim s.startOfLine isLineBreak } := by
  have last (c : Char) (rest : Text) (start : Bool) :
      (c :: rest).getLast?.elim start isLineBreak = rest.getLast?.elim (isLineBreak c) isLineBreak := by
    rw [List.getLast?_cons]
    cases rest.getLast? <;> rfl
  fun_induction s.advance w with
  | case1 => rfl
  | case2 s rest ih =>
    have return_break : isLineBreak '\r' = true := rfl
    have feed_break : isLineBreak '\n' = true := rfl
    rw [ih, lineBreaks, last, last, currentLine_cons, currentLine_cons]
    simp only [afterBreak, List.any_cons, return_break, feed_break, Bool.true_or, if_true, Nat.add_assoc,
      Nat.add_comm 1]
    cases rest.any isLineBreak <;> simp
  | case3 s c rest pair hc ih =>
    have single : ¬ (c = '\r' ∧ rest.head? = some '\n') := by
      rintro ⟨rfl, feed⟩
      obtain ⟨rest, rfl⟩ := List.head?_eq_some_iff.mp feed
      exact pair rest rfl rfl
    rw [ih, lineBreaks_break hc single, last, currentLine_cons]
    simp only [afterBreak, List.any_cons, hc, Bool.true_or, if_true, Nat.add_assoc, Nat.add_comm 1]
    cases rest.any isLineBreak <;> simp
  | case4 s c rest pair hc ih =>
    have inside : isLineBreak c = false := by simpa using hc
    rw [ih, lineBreaks_inside inside, last, currentLine_cons]
    simp only [afterCharacter, List.any_cons, inside, Bool.false_or, List.length_cons, Nat.add_assoc, Nat.add_comm 1]
    cases rest.any isLineBreak <;> simp

@[simp] theorem advance_previous (s : State κ) (w : Text) : (s.advance w).previous = s.previous := by rw [advance_eq]

@[simp] theorem advance_inCommentBlock (s : State κ) (w : Text) : (s.advance w).inCommentBlock = s.inCommentBlock := by
  rw [advance_eq]

structure At (consumed : Text) (s : State κ) : Prop where
  line : s.line = 1 + lineBreaks consumed
  column : s.column = 1 + (currentLine consumed).length
  startOfLine : s.startOfLine = consumed.getLast?.all isLineBreak

theorem At.start : At [] ({} : State κ) := ⟨rfl, rfl, rfl⟩

theorem At.congr {s s' : State κ} {consumed : Text} (place : At consumed s) (line : s'.line = s.line)
    (column : s'.column = s.column) (startOfLine : s'.startOfLine = s.startOfLine) : At consumed s' :=
  ⟨line.trans place.line, column.trans place.column, startOfLine.trans place.startOfLine⟩

theorem At.advance {s : State κ} {consumed w : Text} (place : At consumed s) (whole : ¬ SplitsPair consumed w) :
    At (consumed ++ w) (s.advance w) := by
  rw [advance_eq]
  constructor
  · rw [lineBreaks_append whole, ← Nat.add_assoc, ← place.line]
  · rw [currentLine_append]
    cases w.any isLineBreak with
    | true => rfl
    | false => simp [place.column, Nat.add_assoc]
  · rw [List.getLast?_append]
    cases w.getLast? with
    | none => exact place.startOfLine
    | some c => rfl

end Lexer.State

theorem Lexer.accept_eq {κ : Type} {lexer : Lexer κ} {s : Stream κ} {c : Candidate κ} {state : State κ} {emit : Emit}
    (acted : c.rule.action (s.state.beforeMatch.atMatch s.rest c.length) (c.lexeme.getD (s.rest.take c.length)) =
      (state, emit)) :
    lexer.accept s c =
      ({ kind := c.rule.kind, lexeme := c.lexeme.getD (s.rest.take c.length), raw := s.rest.take c.length
         start := s.position, stop := s.position + byteSize (s.rest.take c.length)
         line := state.line, column := state.column, file := lexer.file, suppressed := emit = .skip },
        { s with
          rest := s.rest.drop c.length, position := s.position + byteSize (s.rest.take c.length)
          state := { state.advance (s.rest.take c.length) with
            previous := if emit = .token then some c.rule.kind else state.previous } }) := by
  unfold accept
  simp only [acted]
  cases emit with
  | token => rfl
  | skip =>
    have same := State.advance_previous state (s.rest.take c.length)
    simp only [reduceCtorEq, if_false]
    rw [← same]

theorem Lexer.failure_place {κ : Type} {lexer : Lexer κ} {s : Stream κ} {f : Failure} (step : lexer.step s = .error f) :
    f.line = s.state.line ∧ f.column = s.state.column := by
  unfold Lexer.step at step
  split at step
  · cases step
  · cases step
    exact ⟨rfl, rfl⟩

end Netlist
