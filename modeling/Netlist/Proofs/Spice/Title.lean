import Netlist.Proofs.Spice.Blocks
import Netlist.Proofs.Spice.Continuations
import Netlist.Proofs.Spice.Lexemes
import Netlist.Proofs.Spice.Statements

/-!
The title. It takes the whole first line, whatever that holds, unless the line is blank or nothing but a
continuation marker: the other rules on top match less of it, and the rules below do not matter. Behind it
no other title applies.
-/
namespace Netlist

theorem firstLine_view (w : Window) (k : Continuation) (t : Text) : firstLine (w.view k t) = firstLine t := by
  obtain ⟨more, pieces, seam⟩ := w.view_pieces k t
  by_cases last : more = []
  · rw [last, List.append_nil] at pieces
    rw [← pieces]
  · conv => rhs; rw [pieces]
    exact (firstLine_append (seam last)).symm

def isMarkerAlone (line : PhysicalLine) : Bool :=
  line.content.head? == some '\\' && line.content.tail.all isBlank && !line.terminator.isEmpty

namespace Spice

open Lexer

variable {o : Options} {file : Option Text} {keep : Bool} {t window : Text} {s : State Kind} {S S' : Lexer.Stream Kind}
  {token : Token Kind} {tokens : List (Token Kind)} {c : Candidate Kind} {r : Rule Kind}

/-! ### Separators on the first line -/

/-- Blanks end before a line that is not blank does. -/
theorem blanks_shorter {w : Text} (solid : ∃ x ∈ (firstLine window).content, isBlank x = false) (start : w <+: window)
    (blank : ∀ x ∈ w, isBlank x = true) : w.length < (firstLine window).content.length := by
  obtain ⟨x, member, inside⟩ := solid
  by_contra long
  have covered : (firstLine window).content <+: w :=
    List.prefix_of_prefix_length_le (List.takeWhile_prefix _) start (Nat.le_of_not_lt long)
  rw [blank x (covered.subset member)] at inside
  cases inside

theorem isMarkerAlone_firstLine {w behind : Text} (eq : window = '\\' :: w ++ behind) (blank : ∀ x ∈ w, isBlank x = true)
    (broken : firstTerminator behind ≠ []) : isMarkerAlone (firstLine window) = true := by
  have inside : ∀ x ∈ '\\' :: w, (!isLineBreak x) = true := by
    rintro x (_ | ⟨_, member⟩)
    · rfl
    · rw [not_isLineBreak_of_isBlank (blank x member)]
      rfl
  have ends : behind.takeWhile (!isLineBreak ·) = [] ∧ behind.dropWhile (!isLineBreak ·) = behind := by
    rcases firstTerminator_cases broken with ⟨rest, rfl⟩ | ⟨rest, rfl⟩ | ⟨rest, rfl, _⟩ <;> exact ⟨rfl, rfl⟩
  have first : firstLine window = ⟨'\\' :: w, firstTerminator behind⟩ := by
    rw [firstLine, eq, List.takeWhile_append_of_pos inside, List.dropWhile_append_of_pos inside, ends.1, ends.2,
      List.append_nil]
  simpa [first, isMarkerAlone, broken] using blank

/-- A blank or a continuation marker at the start of such a line is not the whole of it. -/
theorem separator_shorter (wins : c.Wins (grammar o).rules window s) (kind : c.rule.kind = .whitespace ∨ c.rule.kind = .continuation)
    (solid : ∃ x ∈ (firstLine window).content, isBlank x = false) (more : isMarkerAlone (firstLine window) = false) :
    c.length < (firstLine window).content.length := by
  obtain ⟨_, _, takes⟩ := attempt_takes wins.mem wins.found
  obtain ⟨_, fits⟩ := attempt_fits (grammar_bounded o _ wins.mem) wins.found
  have lines := all_rules rules_fitLines wins.mem
  have length : (window.take c.length).length = c.length := List.length_take_of_le fits
  cases takes with
  | group opening closing recognizer closes last =>
    have fitting := all_rules rules_fitGroups wins.mem
    rcases kind with kind | kind <;> simp [fitsGroups, recognizer, kind] at fitting
  | pattern p e recognizer head spans consumes =>
    rw [← length]
    rcases kind with kind | kind
    · obtain rfl : p = someBlanks := by simpa [fitsLines, recognizer, kind, Pattern.atStart] using lines
      refine blanks_shorter solid (List.take_prefix _ _) fun x member => ?_
      exact (congrFun contains_blanks x).symm.trans (consumes.inside x member)
    · have markers : p = currentLineMarker ∨ p = nextLineMarker := by
        simpa [fitsLines, recognizer, kind, Pattern.atStart] using lines
      rcases markers with rfl | rfl
      · obtain ⟨w, behind, eq, blank, broken, _⟩ := currentLineMarker_head? head
        have alone : isMarkerAlone (firstLine window) = true := isMarkerAlone_firstLine eq blank broken
        rw [alone] at more
        cases more
      · obtain ⟨_, _, broken, _⟩ := nextLineMarker_head? head
        obtain ⟨x, member, _⟩ := solid
        rcases firstTerminator_cases broken with ⟨rest, eq⟩ | ⟨rest, eq⟩ | ⟨rest, eq, _⟩ <;>
          (obtain rfl : window = _ := eq; cases member)

/-! ### The title wins -/

theorem titleRule_mem (title : o.hasTitle = true) : titleRule ∈ (grammar o).rules := by
  simp [grammar, title]

/-- Where the title applies, it wins with the whole line. The other rules on top are those of comments, which
come later in the order, and those of separators. -/
theorem exists_title_wins (title : o.hasTitle = true) (applies : titleRule.applies s = true)
    (solid : ∃ x ∈ (firstLine window).content, isBlank x = false) (more : isMarkerAlone (firstLine window) = false) :
    ∃ c : Candidate Kind, c.Wins (grammar o).rules window s ∧ c.rule = titleRule ∧ c.length = (firstLine window).content.length ∧
      c.lexeme = none := by
  obtain ⟨d, found, length⟩ : ∃ d, titleRule.attempt window s = .ok (some d) ∧
      d.length = (firstLine window).content.length := by
    obtain ⟨x, member, _⟩ := solid
    cases window with
    | nil => cases member
    | cons y rest =>
      cases broken : isLineBreak y with
      | false => exact exists_title_attempt applies broken
      | true => simp [firstLine, broken] at member
  have member := titleRule_mem title
  obtain ⟨c, wins⟩ := exists_wins member found
  have held := wins.not_beaten member found
  have top : c.rule.top = true := wins.top member rfl found
  have plain : isComment c.rule.kind = false := Bool.eq_false_iff.mpr fun comment => by
    rw [untitled wins comment title] at applies
    cases applies
  have long : ¬ (c.rule.kind = .whitespace ∨ c.rule.kind = .continuation) := fun kind => by
    have shorter := separator_shorter wins kind solid more
    have longer : d.beats c = true := by simp [Candidate.beats, attempt_rule found, titleRule, top, length, shorter]
    rw [held] at longer
    cases longer
  have own : c.rule = titleRule := by
    refine eq_titleRule wins.mem ?_
    have stands := all_rules rules_standOnTop wins.mem
    revert stands plain long
    rw [standsOnTop, top]
    cases c.rule.kind <;> simp [isComment, insideBlock]
  have same := wins.found
  rw [own, found] at same
  obtain rfl := Option.some.inj (Except.ok.inj same)
  exact ⟨d, wins, own, length, attempt_lexeme rfl found⟩

def titleToken (file : Option Text) (t : Text) : Token Kind where
  kind := .title
  lexeme := (firstLine t).content
  raw := (firstLine t).content
  start := 0
  stop := byteSize (firstLine t).content
  line := 1
  column := 1
  file

theorem step_title (title : o.hasTitle = true) (solid : ∃ x ∈ (firstLine t).content, isBlank x = false)
    (more : isMarkerAlone (firstLine t) = false) (file : Option Text) (keep : Bool) :
    ∃ S', (lexer o file keep).step { rest := t } = .ok (titleToken file t, S') ∧ S'.state.previous = some .title := by
  rw [← firstLine_view o.window .netlist t] at solid more
  obtain ⟨c, wins, own, length, lexeme⟩ := exists_title_wins (s := {}) title rfl solid more
  have won : select (grammar o).rules (o.window.view .netlist t) {} = .ok c :=
    select_eq_ok.mpr ⟨wins, .inl (by rw [own]; rfl)⟩
  have raw : t.take c.length = (firstLine t).content := by
    rw [length, firstLine_view]
    exact (List.prefix_iff_eq_take.mp (List.takeWhile_prefix _)).symm
  refine ⟨((lexer o file keep).accept { rest := t } c).2, ?_, ?_⟩
  · have stepped : (lexer o file keep).step { rest := t } = .ok ((lexer o file keep).accept { rest := t } c) :=
      step_of_select won
    rw [stepped]
    refine congrArg Except.ok (Prod.ext ?_ rfl)
    simp [accept, own, lexeme, raw, titleRule, rule, titleToken, lexer, State.beforeMatch, State.atMatch]
  · simp [accept, own, titleRule, rule]

/-! ### Behind the title -/

theorem ne_title_of_matched (run : Matched (lexer o file keep) S tokens S')
    (untitled : 1 < S.state.line ∨ S.state.previous.isSome = true) : ∀ token ∈ tokens, token.kind ≠ .title := by
  induction run with
  | none S => exact nofun
  | more _ step _ ih =>
    obtain ⟨c, steps⟩ := step_spec step
    have first := ne_title steps.wins fun _ => untitled
    exact List.forall_mem_cons.mpr ⟨steps.kind ▸ first, ih (steps.untitled untitled)⟩

theorem items_ne_title (running : S.finished = false) (untitled : 1 < S.state.line ∨ S.state.previous.isSome = true)
    (member : .token token ∈ (lexer o file keep).items S) : token.kind ≠ .title := by
  obtain ⟨tokens, S', item, run, ending⟩ := exists_matched (lexer o file keep) S
  rw [run.items_eq running ending, List.mem_append, List.mem_singleton] at member
  rcases member with shown | last
  · obtain ⟨token', inside, same⟩ := List.mem_map.mp shown
    cases same
    exact ne_title_of_matched run untitled token (List.mem_filter.mp inside).1
  · cases ending with
    | text empty =>
      cases last
      exact nofun
    | failure nonempty step => cases last

/-- For all options with a title, a first line that is neither blank nor a continuation marker alone is the
title as a whole: the first token of all, silent ones included, at the first line and column, and the only title. -/
theorem title_takes_first_line (o : Options) (title : o.hasTitle = true) (file : Option Text) (keepSuppressed : Bool) (t : Text)
    (solid : ∃ x ∈ (firstLine t).content, isBlank x = false) (more : isMarkerAlone (firstLine t) = false) :
    ∃ later, (lexer o file keepSuppressed).items { rest := t } = .token (titleToken file t) :: later ∧
      ∀ token, .token token ∈ later → token.kind ≠ .title := by
  obtain ⟨S', step, emitted⟩ := step_title title solid more file keepSuppressed
  have nonempty : t ≠ [] := by
    rintro rfl
    obtain ⟨x, member, _⟩ := solid
    cases member
  have running : S'.finished = false := (step_shortens nonempty step).2
  refine ⟨(lexer o file keepSuppressed).items S', items_ok rfl nonempty step, fun token => items_ne_title running (.inr ?_)⟩
  rw [emitted]
  rfl

/-- Brackets and a quote that do not close, marks of comments, a directive and a backslash in front of the line break. -/
theorem title_takes_first_line_marks :
    let t := chars " .if (\x7b \x27[ $; #com *\\\n.end\n"
    ∃ later, (lexer { hasTitle := true } none true).items { rest := t } =
        .token { kind := .title, lexeme := chars " .if (\x7b \x27[ $; #com *\\", raw := chars " .if (\x7b \x27[ $; #com *\\",
                 start := 0, stop := 21, line := 1, column := 1 } :: later ∧
      ∀ token, .token token ∈ later → token.kind ≠ .title :=
  title_takes_first_line { hasTitle := true } rfl none true (chars " .if (\x7b \x27[ $; #com *\\\n.end\n")
    ⟨'.', by decide, by decide⟩ (by decide)

end Spice

end Netlist
