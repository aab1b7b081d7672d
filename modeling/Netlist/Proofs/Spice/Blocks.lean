import Netlist.Proofs.Spice.LookingBack
import Netlist.Proofs.Spice.State

/-!
Inside block comments. The rules on top leave nothing to the others there but line breaks, and these are
silent, so a block comment is silent until its end, whatever it holds, and never fails.
-/
namespace Netlist.Spice

open Lexer

variable {o : Options} {file : Option Text} {keep : Bool} {t window : Text} {s : State Kind} {S S' : Lexer.Stream Kind}
  {token : Token Kind} {tokens : List (Token Kind)} {c : Candidate Kind} {r : Rule Kind}

/-! ### Where no title applies -/

/-- A state inside a block comment. No title applies there, as one would have taken the start of the block. -/
structure Enclosed (o : Options) (s : State Kind) : Prop where
  inside : s.inCommentBlock = true
  offered : o.blockComments = true
  untitled : o.hasTitle = true → 1 < s.line ∨ s.previous.isSome = true

theorem Enclosed.beforeMatch (enclosed : Enclosed o s) : Enclosed o s.beforeMatch :=
  ⟨enclosed.inside, enclosed.offered, enclosed.untitled⟩

theorem Steps.untitled (steps : Steps o S token S' c) (first : 1 < S.state.line ∨ S.state.previous.isSome = true) :
    1 < S'.state.line ∨ S'.state.previous.isSome = true := by
  rw [steps.breaks, steps.previous]
  rcases first with behind | emitted
  · exact .inl (Nat.lt_add_right _ behind)
  · right
    split
    · exact emitted
    · rfl

theorem Enclosed.onward (enclosed : Enclosed o S.state) (steps : Steps o S token S' c) (goes : token.kind ≠ .blockCommentEnd) :
    Enclosed o S'.state := by
  refine ⟨?_, enclosed.offered, fun title => steps.untitled (enclosed.untitled title)⟩
  rw [steps.inCommentBlock]
  unfold blockAfter
  split
  · rfl
  · next last => exact absurd last goes
  · exact enclosed.inside

theorem Steps.enclosed (steps : Steps o S token S' c) (counted : 1 ≤ S.state.line) (start : token.kind = .blockCommentStart) :
    Enclosed o S'.state := by
  have kind : c.rule.kind = .blockCommentStart := steps.kind.symm.trans start
  have offered : offers o c.rule.kind = true := offers_kind steps.wins.mem
  rw [kind] at offered
  have inside : S'.state.inCommentBlock = true := by rw [steps.inCommentBlock, start, blockAfter]
  refine ⟨inside, offered, fun title => steps.untitled ?_⟩
  have silent := Spice.untitled steps.wins (by simp [kind, isComment]) title
  have silent : S.state.line = 1 → S.state.previous.isSome = true := by
    simpa [titleRule, State.beforeMatch, Option.ne_none_iff_isSome] using silent
  rcases Nat.eq_or_lt_of_le counted with first | behind
  · exact .inr (silent first.symm)
  · exact .inl behind

/-- Wherever a tokenization is inside a block comment, it has met the start of the block. -/
theorem enclosed_of_matched (run : Matched (lexer o file keep) { rest := t } tokens S)
    (inside : S.state.inCommentBlock = true) : Enclosed o S.state := by
  have onward {S S' : Lexer.Stream Kind} {tokens : List (Token Kind)} (run : Matched (lexer o file keep) S tokens S')
      (counted : 1 ≤ S.state.line) (before : S.state.inCommentBlock = true → Enclosed o S.state) :
      S'.state.inCommentBlock = true → Enclosed o S'.state := by
    induction run with
    | none S => exact before
    | more _ step _ ih =>
      obtain ⟨c, steps⟩ := step_spec step
      refine ih (steps.breaks ▸ Nat.le_add_right_of_le counted) fun inside => ?_
      by_cases start : c.rule.kind = .blockCommentStart
      · exact steps.enclosed counted (steps.kind.trans start)
      · rw [steps.inCommentBlock] at inside
        unfold blockAfter at inside
        split at inside
        · next same => exact absurd (steps.kind.symm.trans same) start
        · cases inside
        · next goes => exact (before inside).onward steps goes
  exact onward run (Nat.le_refl 1) (fun empty => nomatch empty) inside

/-! ### What is selected -/

def insideBlock : Kind → Bool
  | .whitespace | .newline | .continuation | .comment | .blockCommentContent => true
  | _ => false

/-- Whether the match of a rule may begin with a line break only if it is one or a continuation. -/
def sparesBreaks (r : Rule Kind) : Bool :=
  match r.recognizer with
  | .pattern p => r.kind == .newline || r.kind == .continuation || (!p.beginsWith '\n' && !p.beginsWith '\r')
  | .procedure .. => true

theorem rules_spareBreaks (keep : Bool) : (grammar (fullOptions keep)).rules.all sparesBreaks = true := by
  cases keep <;> rfl

def standsOnTop (r : Rule Kind) : Bool :=
  !r.top || r.kind == .title || r.kind == .blockCommentEnd || (insideBlock r.kind && r.kind != .newline)

theorem rules_standOnTop (keep : Bool) : (grammar (fullOptions keep)).rules.all standsOnTop = true := by
  cases keep <;> rfl

theorem eq_titleRule (member : r ∈ (grammar o).rules) (kind : r.kind = .title) : r = titleRule := by
  have full (keep : Bool) : ∀ r ∈ (grammar (fullOptions keep)).rules, r.kind = .title → r = titleRule := by
    simp only [grammar, fullOptions, separators, groups, directives, numbers, lineComments, blockComments,
      names, punctuation, buses, List.forall_mem_append, List.forall_mem_cons, if_true]
    repeat' apply And.intro
    all_goals first
      | (intro kind; cases kind; done)
      | exact fun _ => rfl
      | simp
  exact full _ r (mem_fullGrammar member) kind

theorem applies_group (member : r ∈ (grammar o).rules) {trigger : Pattern} {matcher : Matcher Kind}
    (recognizer : r.recognizer = .procedure trigger matcher) (inside : s.inCommentBlock = true) : r.applies s = false := by
  have full (keep : Bool) : ∀ r ∈ (grammar (fullOptions keep)).rules,
      r.recognizer = .procedure trigger matcher → r.applies s = false := by
    simp only [grammar, fullOptions, separators, groups, titleRule, directives, numbers, lineComments, blockComments,
      names, punctuation, buses, List.forall_mem_append, List.forall_mem_cons, if_true]
    repeat' apply And.intro
    all_goals first
      | (intro same; cases same; done)
      | (intro _; simp [groupRule, inside])
  exact full _ r (mem_fullGrammar member) recognizer

theorem attempt_ne_error (member : r ∈ (grammar o).rules) (inside : s.inCommentBlock = true) (message : Text) :
    r.attempt window s ≠ .error message := by
  unfold Rule.attempt
  cases shape member with
  | pattern p recognizer =>
    rw [recognizer]
    split <;> simp
  | group opening closing _ recognizer => simp [applies_group member recognizer inside]

theorem blockComments_subset (o : Options) : blockComments o ⊆ (grammar o).rules := by
  intro r member
  simp [grammar, member]

theorem exists_content_rule (offered : o.blockComments = true) : ∃ r ∈ (grammar o).rules, r.top = true ∧
    r.recognizer = .pattern blockContent.atStart ∧ ∀ s, r.applies s = s.inCommentBlock := by
  have present : blockComments o = _ := if_pos offered
  exact ⟨_, blockComments_subset o (present ▸ List.mem_cons_of_mem _ (List.mem_cons_of_mem _ List.mem_cons_self)),
    rfl, rfl, fun _ => rfl⟩

theorem exists_newline_rule (o : Options) : ∃ r ∈ (grammar o).rules,
    r.recognizer = .pattern lineBreak.atStart ∧ ∀ s, r.applies s = true :=
  ⟨newlineRule, by simp [grammar], rfl, fun _ => rfl⟩

/-- Text of a block comment goes up to the next number sign, or is that sign. -/
theorem blockContent_head? {x : Char} (rest : Text) (solid : isLineBreak x = false) :
    ∃ e, (blockContent.ends (.start (x :: rest))).head? = some e ∧ 0 < e.offset := by
  by_cases sign : x = '#'
  · subst sign
    exact ⟨_, rfl, Nat.one_pos⟩
  · have inside : (Pattern.CharSet.complement (.ofList (chars "\r\n#"))).contains x = true := by
      simp only [isLineBreak, Bool.or_eq_false_iff, beq_eq_false_iff_ne] at solid
      simp [Pattern.CharSet.contains, chars, sign, solid]
    obtain ⟨e, head, spans⟩ := Pattern.oneOrMore_set_head? (c := .start (x :: rest)) rfl inside
    refine ⟨e, Cursor.head?_merge_left head, ?_⟩
    rw [spans.offset, Cursor.start, List.takeWhile_cons_of_pos inside, List.length_cons]
    exact Nat.lt_add_of_pos_right (Nat.succ_pos _)

/-- Before a character that is not a line break, text of the comment matches, by a rule on top. -/
theorem Enclosed.exists_content_attempt (enclosed : Enclosed o s) {x : Char} (rest : Text) (solid : isLineBreak x = false) :
    ∃ r ∈ (grammar o).rules, r.top = true ∧ ∃ d, r.attempt (x :: rest) s = .ok (some d) := by
  obtain ⟨r, member, top, recognizer, applies⟩ := exists_content_rule enclosed.offered
  obtain ⟨e, head, positive⟩ := blockContent_head? rest solid
  obtain ⟨d, found, _⟩ := exists_attempt recognizer ((applies s).trans enclosed.inside) head positive
  exact ⟨r, member, top, d, found⟩

theorem exists_newline_attempt (o : Options) {x : Char} (rest : Text) (broken : isLineBreak x = true) (s : State Kind) :
    ∃ r ∈ (grammar o).rules, ∃ d, r.attempt (x :: rest) s = .ok (some d) := by
  obtain ⟨r, member, recognizer, applies⟩ := exists_newline_rule o
  have first : firstTerminator (x :: rest) ≠ [] := by
    unfold firstTerminator
    split <;> simp_all
  obtain ⟨e, head⟩ : ∃ e, (lineBreak.ends (.start (x :: rest))).head? = some e :=
    ⟨_, List.head?_eq_some_head (lineBreak_ends_ne_nil first)⟩
  obtain ⟨spans, _⟩ := lineBreak_head? head
  have positive : 0 < e.offset := by
    rw [spans.offset]
    exact Nat.lt_add_left _ (List.length_pos_iff.mpr first)
  obtain ⟨d, found, _⟩ := exists_attempt recognizer (applies s) head positive
  exact ⟨r, member, d, found⟩

theorem Enclosed.exists_select (enclosed : Enclosed o s) (nonempty : window ≠ []) :
    ∃ c, select (grammar o).rules window s = .ok c := by
  have silent : ∀ r ∈ (grammar o).rules, ∀ message, r.attempt window s ≠ .error message :=
    fun r member => attempt_ne_error member enclosed.inside
  obtain ⟨x, rest, rfl⟩ := List.exists_cons_of_ne_nil nonempty
  cases broken : isLineBreak x with
  | true =>
    obtain ⟨r, member, d, found⟩ := exists_newline_attempt o rest broken s
    exact Lexer.exists_select member found silent
  | false =>
    obtain ⟨r, member, _, d, found⟩ := enclosed.exists_content_attempt rest broken
    exact Lexer.exists_select member found silent

/-- Behind the first line, or behind a token, no title wins. -/
theorem ne_title (wins : c.Wins (grammar o).rules window s)
    (untitled : o.hasTitle = true → 1 < s.line ∨ s.previous.isSome = true) : c.rule.kind ≠ .title := by
  intro title
  obtain ⟨applies, _⟩ := attempt_takes wins.mem wins.found
  have offered : offers o c.rule.kind = true := offers_kind wins.mem
  rw [title] at offered
  simp only [eq_titleRule wins.mem title, titleRule, Bool.and_eq_true, beq_iff_eq, Option.isNone_iff_eq_none] at applies
  rcases untitled offered with behind | emitted
  · omega
  · simp [applies.2] at emitted

theorem exists_pattern (wins : c.Wins (grammar o).rules window s) (inside : s.inCommentBlock = true) :
    ∃ (p : Pattern) (e : Cursor), c.rule.recognizer = .pattern p.atStart ∧ (p.ends (.start window)).head? = some e ∧
      Cursor.Spans (window.take c.length) (.start window) e ∧ p.Consumes (window.take c.length) := by
  obtain ⟨applies, _, takes⟩ := attempt_takes wins.mem wins.found
  cases takes with
  | group opening closing recognizer _ _ =>
    rw [applies_group wins.mem recognizer inside] at applies
    cases applies
  | pattern p e recognizer head spans consumes => exact ⟨p, e, recognizer, head, spans, consumes⟩

theorem kind_of_break (wins : c.Wins (grammar o).rules window s) (inside : s.inCommentBlock = true) {x : Char}
    (first : (window.take c.length).head? = some x) (broken : isLineBreak x = true) :
    c.rule.kind = .newline ∨ c.rule.kind = .continuation := by
  obtain ⟨p, e, recognizer, head, spans, _⟩ := exists_pattern wins inside
  have spares := all_rules rules_spareBreaks wins.mem
  have reached := Pattern.reaches_of_mem_ends (List.mem_of_mem_head? head)
  have begun : p.beginsWith x = true := reached.begins spans first
  simp only [sparesBreaks, recognizer, Pattern.atStart, Pattern.beginsWith, Pattern.nullable, Bool.true_and,
    Bool.false_or, Bool.or_eq_true, beq_iff_eq, Bool.and_eq_true, Bool.not_eq_true'] at spares
  simp only [isLineBreak, Bool.or_eq_true, beq_iff_eq] at broken
  rcases spares with kind | ⟨feed, back⟩
  · exact kind
  · rcases broken with rfl | rfl
    · rw [feed] at begun
      cases begun
    · rw [back] at begun
      cases begun

/-- What wins inside a block comment is on top, or it is a line break. -/
theorem Enclosed.top_or_break (enclosed : Enclosed o s) (wins : c.Wins (grammar o).rules window s) :
    c.rule.top = true ∨ c.rule.kind = .newline ∨ c.rule.kind = .continuation := by
  obtain ⟨positive, fits⟩ := attempt_fits (grammar_bounded o _ wins.mem) wins.found
  cases window with
  | nil => exact absurd fits (Nat.not_le.mpr positive)
  | cons x rest =>
    cases broken : isLineBreak x with
    | true =>
      have first : ((x :: rest).take c.length).head? = some x := by
        obtain ⟨length, eq⟩ := Nat.exists_eq_succ_of_ne_zero (Nat.ne_of_gt positive)
        simp [eq]
      exact .inr (kind_of_break wins enclosed.inside first broken)
    | false =>
      obtain ⟨r, member, top, d, found⟩ := enclosed.exists_content_attempt rest broken
      exact .inl (wins.top member top found)

/-- What wins inside a block comment is a part of it or its end. -/
theorem Enclosed.kind (enclosed : Enclosed o s) (wins : c.Wins (grammar o).rules window s) :
    insideBlock c.rule.kind = true ∨ c.rule.kind = .blockCommentEnd := by
  rcases enclosed.top_or_break wins with top | kind | kind
  · have stands := all_rules rules_standOnTop wins.mem
    simp only [standsOnTop, top, Bool.not_true, Bool.false_or, Bool.or_eq_true, beq_iff_eq, Bool.and_eq_true] at stands
    rcases stands with (title | last) | ⟨inside, _⟩
    · exact absurd title (ne_title wins enclosed.untitled)
    · exact .inr last
    · exact .inl inside
  · exact .inl (by rw [kind]; rfl)
  · exact .inl (by rw [kind]; rfl)

/-! ### The run through a block comment -/

theorem Enclosed.exists_step (enclosed : Enclosed o S.state) (nonempty : S.rest ≠ []) (file : Option Text) (keep : Bool) :
    ∃ token S' c, (lexer o file keep).step S = .ok (token, S') ∧ Steps o S token S' c ∧
      (insideBlock token.kind = true ∨ token.kind = .blockCommentEnd) := by
  obtain ⟨c, won⟩ := enclosed.beforeMatch.exists_select (o.window.view_ne_nil .netlist nonempty)
  have stepped : (lexer o file keep).step S = .ok ((lexer o file keep).accept S c) := step_of_select won
  obtain ⟨d, steps⟩ := step_spec stepped
  exact ⟨_, _, d, stepped, steps, steps.kind ▸ enclosed.beforeMatch.kind steps.wins⟩

/-- Without comments all that a block comment is matched as is silent. -/
theorem Enclosed.silent (enclosed : Enclosed o S.state) (steps : Steps o S token S' c)
    (discarding : o.keepComments = false) : token.suppressed = true := by
  rw [steps.suppressed, discarding, enclosed.inside]
  rcases steps.kind ▸ enclosed.beforeMatch.kind steps.wins with inside | last
  · revert inside
    cases token.kind <;> simp [insideBlock, emission]
  · simp [last, emission]

/-- A run goes through a block comment up to the end of the text or the end of the comment. -/
theorem Enclosed.exists_run (enclosed : Enclosed o S.state) (file : Option Text) (keep : Bool) :
    ∃ inner S', Matched (lexer o file keep) S inner S' ∧
      (∀ token ∈ inner, insideBlock token.kind = true ∧ (o.keepComments = false → token.suppressed = true)) ∧
      Enclosed o S'.state ∧ (S'.rest = [] ∨ (S'.rest ≠ [] ∧ ∃ mark S'' c, (lexer o file keep).step S' = .ok (mark, S'') ∧
        Steps o S' mark S'' c ∧ mark.kind = .blockCommentEnd)) := by
  induction size : S.rest.length using Nat.strongRecOn generalizing S with
  | ind n shorter =>
    by_cases empty : S.rest = []
    · exact ⟨[], S, .none S, nofun, enclosed, .inl empty⟩
    · obtain ⟨token, S', c, step, steps, kind⟩ := enclosed.exists_step empty file keep
      rcases kind with inside | last
      · have goes : token.kind ≠ .blockCommentEnd := fun last => by simp [last, insideBlock] at inside
        have consumes := step_consumes (grammar_bounded o) step
        have length := congrArg List.length consumes.rest
        have positive := List.length_pos_iff.mpr consumes.raw
        rw [List.length_append] at length
        obtain ⟨inner, S'', run, kinds, rest⟩ := shorter S'.rest.length (by omega) (enclosed.onward steps goes) rfl
        exact ⟨token :: inner, S'', .more empty step run,
          List.forall_mem_cons.mpr ⟨⟨inside, enclosed.silent steps⟩, kinds⟩, rest⟩
      · exact ⟨[], S, .none S, nofun, enclosed, .inr ⟨empty, token, S', c, step, steps, last⟩⟩

theorem filter_shows_silent (silent : ∀ token ∈ tokens, token.suppressed = true) :
    tokens.filter (lexer o file keep).shows = if keep then tokens else [] := by
  have same : ∀ token ∈ tokens, (lexer o file keep).shows token = keep :=
    fun token member => by simp [shows, silent token member, lexer]
  rw [List.filter_congr same]
  cases keep <;> simp

/-- At every point of a tokenization inside a block comment that is not kept, the next step matches a silent
token, and up to the end of the block, or of the text, nothing is yielded but the end token. -/
theorem block_silent (discarding : o.keepComments = false) (run : Matched (lexer o file keep) { rest := t } tokens S)
    (inside : S.state.inCommentBlock = true) :
    (S.rest ≠ [] → ∃ token S', (lexer o file keep).step S = .ok (token, S') ∧ token.suppressed = true) ∧
    ∃ later S', Matched (lexer o file keep) S later S' ∧ (∀ token ∈ later, token.suppressed = true) ∧
      ((S'.rest = [] ∧ S'.state.inCommentBlock = true ∧ (∀ token ∈ later, token.kind ≠ .blockCommentEnd) ∧
          (lexer o file keep).items S =
            (if keep then later else []).map .token ++ [.token ((lexer o file keep).endToken S')]) ∨
        (S'.state.inCommentBlock = false ∧ (∃ inner mark, later = inner ++ [mark] ∧ mark.kind = .blockCommentEnd ∧
            ∀ token ∈ inner, token.kind ≠ .blockCommentEnd) ∧
          (lexer o file keep).items S = (if keep then later else []).map .token ++ (lexer o file keep).items S')) := by
  have running : S.finished = false := run.finished
  have enclosed := enclosed_of_matched run inside
  refine ⟨fun nonempty => ?_, ?_⟩
  · obtain ⟨token, S', c, step, steps, _⟩ := enclosed.exists_step nonempty file keep
    exact ⟨token, S', step, enclosed.silent steps discarding⟩
  · obtain ⟨inner, S', through, kinds, enclosed', ending⟩ := enclosed.exists_run file keep
    have silent : ∀ token ∈ inner, token.suppressed = true := fun token member => (kinds token member).2 discarding
    have others : ∀ token ∈ inner, token.kind ≠ .blockCommentEnd := fun token member last => by
      simpa [last, insideBlock] using (kinds token member).1
    rcases ending with empty | ⟨nonempty, mark, S'', c, step, steps, last⟩
    · refine ⟨inner, S', through, silent, .inl ⟨empty, enclosed'.inside, others, ?_⟩⟩
      rw [through.items_eq running (.text empty), filter_shows_silent silent]
    · have whole := through.trans (.single nonempty step)
      have silent' : ∀ token ∈ inner ++ [mark], token.suppressed = true :=
        List.forall_mem_append.mpr ⟨silent, List.forall_mem_singleton.mpr (enclosed'.silent steps discarding)⟩
      refine ⟨inner ++ [mark], S'', whole, silent', .inr ⟨?_, ⟨inner, mark, rfl, last, others⟩, ?_⟩⟩
      · rw [steps.inCommentBlock, last, blockAfter]
      · rw [whole.items_append running, filter_shows_silent silent']

/-- Brackets and quotes that do not close, a directive and a character that begins no token. -/
theorem block_silent_unclosed :
    let lexer := lexer {} none false
    ∃ mark S, lexer.step { rest := chars "#com (\n.if (\x7b \"\x27\n~\\#endcomx" } = .ok (mark, S) ∧
      S.state.inCommentBlock = true ∧ ∃ later S', Matched lexer S later S' ∧ ∀ token ∈ later, token.suppressed = true := by
  intro lexer
  obtain ⟨mark, S, step, inside⟩ := exists_step_of_any lexer { rest := chars "#com (\n.if (\x7b \"\x27\n~\\#endcomx" }
    (·.2.state.inCommentBlock) (by decide +kernel)
  obtain ⟨_, later, S', run, silent, _⟩ := block_silent rfl (.single (by decide) step) inside
  exact ⟨mark, S, step, inside, later, S', run, silent⟩

end Netlist.Spice
