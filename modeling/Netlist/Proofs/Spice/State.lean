import Netlist.Proofs.Spice.Markers
import Netlist.Proofs.Spice.Rules

/-!
What the state of a tokenization says. At every point it gives the place in the text, the kind of the
last token that was emitted and whether a block comment is open. The line and the column are right
because no rule ever ends a match between a carriage return and its line feed.
-/
namespace Netlist.Spice

open Lexer

variable {o : Options} {file : Option Text} {keep : Bool} {t : Text} {s s' : Stream Kind} {token : Token Kind}
  {tokens : List (Token Kind)}

def marksBlock (k : Kind) : Bool := k == .blockCommentStart || k == .blockCommentEnd

/-- Whether the matches of a rule never end with a carriage return, or end with a whole line break. -/
def endsSafely (r : Rule Kind) : Bool :=
  match r.recognizer with
  | .pattern p => !p.endsWith '\r' || p == lineBreak.atStart || p == currentLineMarker.atStart
  | .procedure .. => true

theorem rules_endSafely (keep : Bool) : (grammar (fullOptions keep)).rules.all endsSafely = true := by
  cases keep <;> rfl

/-- No match ends between a carriage return and its line feed. -/
theorem Takes.whole {r : Rule Kind} {window w more : Text} (member : r ∈ (grammar o).rules) (takes : Takes r window w)
    (text : window = w ++ more) : ¬ SplitsPair w more := by
  rintro ⟨last, feed⟩
  cases takes with
  | group opening closing _ closes last' =>
    obtain rfl := Option.some.inj (last'.symm.trans last)
    rcases closes with same | same <;> cases same
  | pattern p e recognizer head spans consumes =>
    have rest : more = e.rest := List.append_cancel_left (text.symm.trans spans.rest)
    have safe := all_rules rules_endSafely member
    simp only [endsSafely, recognizer, Bool.or_eq_true, Bool.not_eq_true', beq_iff_eq] at safe
    rcases safe with (never | same) | same
    · have ends : p.atStart.endsWith '\r' = true := by simp [Pattern.atStart, Pattern.endsWith, consumes.last '\r' last]
      rw [never] at ends
      cases ends
    · obtain rfl : p = lineBreak := (Pattern.seq.inj same).2
      obtain ⟨spans', _⟩ := lineBreak_head? head
      obtain rfl := spans.unique spans'
      exact firstTerminator_whole spans'.rest ⟨last, rest ▸ feed⟩
    · obtain rfl : p = currentLineMarker := (Pattern.seq.inj same).2
      obtain ⟨blanks, behind, eq, _, broken, spans'⟩ := currentLineMarker_head? head
      obtain rfl := spans.unique spans'
      rw [getLast?_behind _ broken] at last
      have eq' : behind = firstTerminator behind ++ e.rest := by
        have whole := eq.symm.trans spans'.rest
        rw [List.append_assoc] at whole
        exact List.append_cancel_left whole
      exact firstTerminator_whole eq' ⟨last, rest ▸ feed⟩

theorem Steps.whole {c : Candidate Kind} (steps : Steps o s token s' c) (rest : s.rest = token.raw ++ s'.rest) :
    ¬ SplitsPair token.raw s'.rest := by
  obtain ⟨_, _, takes⟩ := attempt_takes steps.wins.mem steps.wins.found
  rw [← steps.raw] at takes
  obtain ⟨seen, more, view, behind, seam⟩ := steps.pieces rest
  rw [behind]
  by_cases all : seen = []
  · subst all
    by_cases last : more = []
    · rintro ⟨_, feed⟩
      rw [last] at feed
      cases feed
    · rw [view, List.append_nil] at seam
      exact (seam last).whole
  · rintro ⟨last, feed⟩
    obtain ⟨x, seen, rfl⟩ := List.exists_cons_of_ne_nil all
    exact takes.whole steps.wins.mem view ⟨last, feed⟩

/-- What a point of a tokenization says about the text up to there and the tokens made of it. -/
structure Tells (t : Text) (tokens : List (Token Kind)) (s : Stream Kind) : Prop where
  text : t = tokens.flatMap Token.raw ++ s.rest
  position : s.position = byteSize (tokens.flatMap Token.raw)
  place : State.At (tokens.flatMap Token.raw) s.state
  previous : s.state.previous = ((tokens.filter (!·.suppressed)).getLast?.map (·.kind))
  inCommentBlock : s.state.inCommentBlock =
    ((tokens.filter (marksBlock ·.kind)).getLast?.any (·.kind == .blockCommentStart))

theorem Tells.start (t : Text) : Tells t [] { rest := t } := ⟨rfl, rfl, .start, rfl, rfl⟩

theorem Tells.step (tells : Tells t tokens s) (whole : ¬ SplitsPair (tokens.flatMap Token.raw) s.rest)
    (step : (lexer o file keep).step s = .ok (token, s')) :
    Tells t (tokens ++ [token]) s' ∧ ¬ SplitsPair ((tokens ++ [token]).flatMap Token.raw) s'.rest := by
  obtain ⟨c, steps⟩ := step_spec step
  have consumes := step_consumes (grammar_bounded o) step
  have raw : (tokens ++ [token]).flatMap Token.raw = tokens.flatMap Token.raw ++ token.raw := by simp
  rw [raw]
  refine ⟨⟨?_, ?_, ?_, ?_, ?_⟩, ?_⟩
  · rw [raw, List.append_assoc, ← consumes.rest]
    exact tells.text
  · rw [raw, byteSize_append, consumes.position, consumes.stop, consumes.start, tells.position]
  · rw [raw]
    refine steps.place _ tells.place fun ⟨last, feed⟩ => whole ⟨last, ?_⟩
    obtain ⟨x, more, eq⟩ := List.exists_cons_of_ne_nil consumes.raw
    rw [consumes.rest, eq]
    rwa [eq] at feed
  · rw [steps.previous, tells.previous, List.filter_append]
    cases hidden : token.suppressed <;> simp [hidden]
  · rw [steps.inCommentBlock, tells.inCommentBlock, List.filter_append]
    cases kind : token.kind <;> simp [kind, marksBlock, blockAfter]
  · rw [SplitsPair, getLast?_behind _ consumes.raw]
    exact steps.whole consumes.rest

theorem Tells.ended (tells : Tells t tokens s) (ended : Ended s s') : Tells t tokens s' := by
  obtain ⟨rest, position, _, same⟩ := ended
  have state : s'.state.line = s.state.line ∧ s'.state.column = s.state.column ∧
      s'.state.startOfLine = s.state.startOfLine ∧ s'.state.previous = s.state.previous ∧
      s'.state.inCommentBlock = s.state.inCommentBlock := by
    rcases same with same | same <;> rw [same] <;> exact ⟨rfl, rfl, rfl, rfl, rfl⟩
  obtain ⟨line, column, startOfLine, previous, inCommentBlock⟩ := state
  exact ⟨rest ▸ tells.text, position.trans tells.position, tells.place.congr line column startOfLine,
    previous.trans tells.previous, inCommentBlock.trans tells.inCommentBlock⟩

theorem Tells.run {tokens later : List (Token Kind)} (tells : Tells t tokens s)
    (whole : ¬ SplitsPair (tokens.flatMap Token.raw) s.rest) (run : Matched (lexer o file keep) s later s') :
    Tells t (tokens ++ later) s' := by
  induction run generalizing tokens with
  | none s => simpa using tells
  | more _ step _ ih =>
    obtain ⟨next, whole'⟩ := tells.step whole step
    simpa using ih next whole'

theorem tells_of_matched (run : Matched (lexer o file keep) { rest := t } tokens s) : Tells t tokens s :=
  (Tells.start t).run (fun split => nomatch split.1) run

structure Behind (before : Text) (line column : Nat) : Prop where
  line : line = 1 + lineBreaks before
  column : column = 1 + (currentLine before).length

theorem Tells.behind (tells : Tells t tokens s) : Behind (tokens.flatMap Token.raw) s.state.line s.state.column :=
  ⟨tells.place.line, tells.place.column⟩

theorem behind_of_mem (run : Matched (lexer o file keep) { rest := t } tokens s) (member : token ∈ tokens) :
    ∃ before behind, t = before ++ behind ∧ token.start = byteSize before ∧ Behind before token.line token.column := by
  obtain ⟨earlier, later, rfl⟩ := List.append_of_mem member
  obtain ⟨s', first, second⟩ := run.split
  have tells := tells_of_matched first
  cases second with
  | more _ step _ =>
    obtain ⟨c, steps⟩ := step_spec step
    have consumes := step_consumes (grammar_bounded o) step
    refine ⟨_, s'.rest, tells.text, consumes.start.trans tells.position, ?_⟩
    rw [steps.line, steps.column]
    exact tells.behind

/-- The invariant of the state, for all options. Wherever a tokenization is, also when it has ended or
failed, the state tells line and column, whether a line starts here, the kind of the last token that is
not suppressed, and whether the last mark of a block comment opened it. Tokens and failures carry the line
and the column of their own start. -/
theorem state_invariant (o : Options) (file : Option Text) (keepSuppressed : Bool) (t : Text) :
    let lexer := lexer o file keepSuppressed
    let start : Lexer.Stream Kind := { rest := t }
    (∀ tokens s, Matched lexer start tokens s → Tells t tokens s) ∧
    (∀ n, ∃ tokens s, Matched lexer start tokens s ∧ Tells t tokens (lexer.after start n)) ∧
    (∀ token, .token token ∈ lexer.items start →
      ∃ before behind, t = before ++ behind ∧ token.start = byteSize before ∧ Behind before token.line token.column) ∧
    ∀ f, .failure f ∈ lexer.items start →
      ∃ tokens s, Matched lexer start tokens s ∧ s.rest ≠ [] ∧ lexer.step s = .error f ∧
        Behind (tokens.flatMap Token.raw) f.line f.column := by
  intro lexer start
  obtain ⟨tokens, s, ending, run, ended⟩ := exists_matched lexer start
  have items := run.items_eq rfl ended
  have tells := tells_of_matched run
  refine ⟨fun tokens s => tells_of_matched, fun n => ?_, fun token member => ?_, fun f member => ?_⟩
  · obtain ⟨earlier, s', first, reached⟩ : ∃ earlier s', Matched lexer start earlier s' ∧
        (lexer.after start n = s' ∨ Ended s' (lexer.after start n)) := exists_matched_after rfl n
    refine ⟨earlier, s', first, ?_⟩
    rcases reached with same | stopped
    · rw [same]
      exact tells_of_matched first
    · exact (tells_of_matched first).ended stopped
  · rw [items, List.mem_append, List.mem_singleton] at member
    rcases member with shown | last
    · obtain ⟨token', member, same⟩ := List.mem_map.mp shown
      cases same
      exact behind_of_mem run (List.mem_filter.mp member).1
    · cases ended with
      | text empty =>
        cases last
        exact ⟨_, s.rest, tells.text, tells.position, tells.behind⟩
      | failure nonempty step => cases last
  · rw [items, List.mem_append, List.mem_singleton] at member
    rcases member with shown | last
    · obtain ⟨_, _, same⟩ := List.mem_map.mp shown
      cases same
    · cases ended with
      | text empty => cases last
      | failure nonempty step =>
        cases last
        obtain ⟨line, column⟩ := failure_place step
        refine ⟨tokens, s, run, nonempty, step, ?_⟩
        rw [line, column]
        exact tells.behind

/-- A pair of line breaks, a block comment and a name behind which the text fails. -/
theorem state_invariant_failure :
    let lexer := lexer {} none false
    let start : Lexer.Stream Kind := { rest := chars "#com\r\n#endcom\ra \x7b" }
    (∃ tokens s, Matched lexer start tokens s ∧ Tells (chars "#com\r\n#endcom\ra \x7b") tokens (lexer.after start 2)) ∧
    (lexer.after start 2).state.line = 3 ∧ (lexer.after start 2).state.previous = some .word := by
  intro lexer start
  obtain ⟨_, points, _, _⟩ := state_invariant {} none false (chars "#com\r\n#endcom\ra \x7b")
  exact ⟨points 2, by decide +kernel, by decide +kernel⟩

end Netlist.Spice
