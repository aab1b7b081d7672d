import Netlist.Proofs.Lexer.Balance
import Netlist.Proofs.Lexer.Precedence
import Netlist.Proofs.Pattern.Reads
import Netlist.Proofs.Pattern.Sets
import Netlist.Proofs.Spice.Lexemes
import Netlist.Proofs.Spice.LookingBack
import Netlist.Proofs.Spice.State

/-!
Groups in braces and parentheses. Where a group has to begin, no other rule takes more of the text than its
opening character, so either the group is captured as a whole or the step fails where it opens.
-/
namespace Netlist.Spice

open Lexer Pattern

variable {o : Options} {file : Option Text} {keep : Bool} {t window : Text} {s : State Kind} {S S' : Lexer.Stream Kind}
  {token : Token Kind} {c : Candidate Kind} {r : Rule Kind} {kind : Kind} {opening closing : Char}

def delimiters? : Kind → Option (Char × Char)
  | .expressionBracket => some ('\x7b', '\x7d')
  | .booleanExpression => some ('(', ')')
  | _ => none

/-- Whether an opening character begins a group of a kind: a brace does outside of block comments where no title
applies, a parenthesis only directly behind the token of `.if` or `.elseif`. -/
inductive Awaits (o : Options) (s : State Kind) : Kind → Prop
  | expression (outside : s.inCommentBlock = false) (untitled : o.hasTitle = true → titleRule.applies s = false) :
      Awaits o s .expressionBracket
  | condition (outside : s.inCommentBlock = false) (behind : s.previous = some .if ∨ s.previous = some .elseIf) :
      Awaits o s .booleanExpression

theorem delimiters_apart (own : delimiters? kind = some (opening, closing)) : opening ≠ closing := by
  cases kind <;> cases own <;> decide

theorem delimiters_inj {kind' : Kind} {closing' : Char} (own : delimiters? kind = some (opening, closing))
    (own' : delimiters? kind' = some (opening, closing')) : kind' = kind := by
  cases kind <;> cases own <;> cases kind' <;> cases own' <;> rfl

theorem Awaits.beforeMatch (awaits : Awaits o s kind) : Awaits o s.beforeMatch kind := by
  cases awaits with
  | expression outside untitled => exact .expression outside untitled
  | condition outside behind => exact .condition outside behind

theorem Awaits.outside (awaits : Awaits o s kind) : s.inCommentBlock = false := by
  cases awaits <;> assumption

theorem Awaits.untitled (awaits : Awaits o s kind) (title : o.hasTitle = true) : titleRule.applies s = false := by
  cases awaits with
  | expression _ untitled => exact untitled title
  | condition _ behind => rcases behind with behind | behind <;> simp [titleRule, behind]

/-! ### The rules at the start of a group -/

inductive Meets (r : Rule Kind) : Prop
  | title (rule : r = titleRule)
  | inside (plain : delimiters? r.kind = none) (applies : ∀ s, r.applies s = s.inCommentBlock)
  | group (opening closing : Char) (own : delimiters? r.kind = some (opening, closing))
      (recognizer : r.recognizer = .procedure (.atStart (.set (.single opening))) (balanced opening closing))
  | delimiter (plain : delimiters? r.kind = none) (below : r.top = false)
      (recognizer : r.recognizer = .pattern (anyOf "()[]").atStart)
  | other (plain : delimiters? r.kind = none) (p : Pattern) (recognizer : r.recognizer = .pattern p.atStart)
      (never : ∀ kind opening closing, delimiters? kind = some (opening, closing) → p.beginsWith opening = false)

theorem never_begins {p : Pattern} (brace : p.beginsWith '\x7b' = false) (parenthesis : p.beginsWith '(' = false) (kind : Kind)
    (opening closing : Char) (own : delimiters? kind = some (opening, closing)) : p.beginsWith opening = false := by
  cases kind <;> cases own <;> assumption

theorem meets (member : r ∈ (grammar o).rules) : Meets r := by
  have full (keep : Bool) : ∀ r ∈ (grammar (fullOptions keep)).rules, Meets r := by
    simp only [grammar, fullOptions, separators, groups, directives, numbers, lineComments, blockComments,
      names, punctuation, buses, List.forall_mem_append, List.forall_mem_cons, if_true]
    repeat' apply And.intro
    all_goals first
      | exact .other rfl _ rfl (never_begins rfl rfl)
      | exact .group _ _ rfl rfl
      | exact .delimiter rfl rfl rfl
      | exact .inside rfl fun _ => rfl
      | exact .title rfl
      | simp
  exact full _ r (mem_fullGrammar member)

theorem Meets.recognizer (meets : Meets r) (own : delimiters? r.kind = some (opening, closing)) :
    r.recognizer = .procedure (.atStart (.set (.single opening))) (balanced opening closing) := by
  cases meets with
  | title rule =>
    subst rule
    cases own
  | group _ _ own' recognizer =>
    rw [own] at own'
    cases own'
    exact recognizer
  | inside plain | delimiter plain | other plain =>
    rw [own] at plain
    cases plain

theorem exists_group_rule (awaits : Awaits o s kind) (own : delimiters? kind = some (opening, closing)) :
    ∃ r ∈ (grammar o).rules, r.top = false ∧ r.applies s = true ∧
      r.recognizer = .procedure (.atStart (.set (.single opening))) (balanced opening closing) := by
  have present : groups ⊆ (grammar o).rules := fun r member => by simp [grammar, member]
  cases awaits with
  | expression outside _ =>
    cases own
    exact ⟨_, present List.mem_cons_self, rfl, by simp [groupRule, outside], rfl⟩
  | condition outside behind =>
    cases own
    refine ⟨_, present (List.mem_cons_of_mem _ List.mem_cons_self), rfl, ?_, rfl⟩
    rcases behind with behind | behind <;> simp [groupRule, outside, State.previousIs, behind]

theorem isSome_trigger : ((Pattern.atStart (.set (.single opening))).findEnd? window).isSome = true ↔ window.head? = some opening := by
  rw [(Reads.ofSet _).findEnd?_eq, Option.isSome_map]
  cases window with
  | nil => simp [behind?]
  | cons x rest =>
    rw [behind?_cons, List.head?_cons, Option.some_inj]
    by_cases same : x = opening <;> simp [same]

theorem balanced_found {n : Nat} (found : balancedLength? opening closing 0 window = some n) :
    balanced opening closing window s = .ok (some ⟨n, withoutContinuations (window.take n)⟩) := by
  rw [balanced, found]

theorem balanced_absent (absent : balancedLength? opening closing 0 window = none) :
    balanced opening closing window s = .error (unbalanced opening) := by
  rw [balanced, absent]
  rfl

theorem matches_group (recognizer : r.recognizer = .procedure (.atStart (.set (.single opening))) (balanced opening closing))
    (found : r.attempt window s = .ok (some c)) : window.head? = some opening ∧
      balancedLength? opening closing 0 window = some c.length ∧
      c.lexeme = some (withoutContinuations (window.take c.length)) := by
  cases attempt_eq_found.mp found with
  | pattern _ same =>
    rw [recognizer] at same
    cases same
  | procedure _ same triggered captured _ =>
    rw [recognizer] at same
    cases same
    refine ⟨isSome_trigger.mp triggered, balanced_eq captured, ?_⟩
    rw [balanced_found (balanced_eq captured)] at captured
    rw [← Option.some.inj (Except.ok.inj captured)]

theorem fails_group (recognizer : r.recognizer = .procedure (.atStart (.set (.single opening))) (balanced opening closing))
    {message : Text} (failed : r.attempt window s = .error message) : window.head? = some opening ∧
      balancedLength? opening closing 0 window = none ∧ message = unbalanced opening := by
  cases attempt_eq_error.mp failed with
  | procedure _ same triggered failed =>
    rw [recognizer] at same
    cases same
    refine ⟨isSome_trigger.mp triggered, ?_⟩
    cases found : balancedLength? opening closing 0 window with
    | some n =>
      rw [balanced_found found] at failed
      cases failed
    | none =>
      rw [balanced_absent found] at failed
      exact ⟨rfl, (Except.error.inj failed).symm⟩

theorem attempt_pattern_cases {p : Pattern} (recognizer : r.recognizer = .pattern p) (window : Text) (s : State Kind) :
    r.attempt window s = .ok none ∨ ∃ c, r.attempt window s = .ok (some c) := by
  cases attempted : r.attempt window s with
  | ok found => cases found <;> simp
  | error message =>
    cases attempt_eq_error.mp attempted with
    | procedure _ same _ _ =>
      rw [recognizer] at same
      cases same

theorem length_of_set {chars : CharSet} (recognizer : r.recognizer = .pattern (Pattern.set chars).atStart)
    (found : r.attempt window s = .ok (some c)) : c.length = 1 := by
  cases attempt_eq_found.mp found with
  | pattern _ same found _ =>
    rw [recognizer] at same
    cases same
    rw [(Reads.ofSet chars).findEnd?_eq] at found
    obtain ⟨rest, read, rfl⟩ := Option.map_eq_some_iff.mp found
    obtain ⟨x, rfl, -⟩ := behind?_eq_some read
    simp
  | procedure _ same _ _ _ =>
    rw [recognizer] at same
    cases same

/-- What a rule may make of a text where a group has to begin: it is the rule of the group, or it matches no more than
the opening character. -/
theorem attempt_at_group (member : r ∈ (grammar o).rules) (awaits : Awaits o s kind)
    (own : delimiters? kind = some (opening, closing)) (head : window.head? = some opening) :
    r.attempt window s = .ok none ∨
      (r.recognizer = .procedure (.atStart (.set (.single opening))) (balanced opening closing) ∧ r.kind = kind) ∨
      (r.top = false ∧ ∃ c, r.attempt window s = .ok (some c) ∧ c.length = 1) := by
  cases meets member with
  | title rule =>
    subst rule
    have title : offers o titleRule.kind = true := offers_kind member
    exact .inl (attempt_silent (awaits.untitled title))
  | inside _ applies => exact .inl (attempt_silent ((applies s).trans awaits.outside))
  | group opening' closing' own' recognizer =>
    by_cases same : opening' = opening
    · subst same
      have kinds := delimiters_inj own own'
      rw [kinds, own] at own'
      cases own'
      exact .inr (.inl ⟨recognizer, kinds⟩)
    · left
      cases attempted : r.attempt window s with
      | error message => exact absurd (Option.some.inj ((fails_group recognizer attempted).1.symm.trans head)) same
      | ok found =>
        cases found with
        | none => rfl
        | some c => exact absurd (Option.some.inj ((matches_group recognizer attempted).1.symm.trans head)) same
  | delimiter _ below recognizer =>
    rcases attempt_pattern_cases recognizer window s with unmatched | ⟨c, found⟩
    · exact .inl unmatched
    · exact .inr (.inr ⟨below, c, found, length_of_set recognizer found⟩)
  | other _ p recognizer never =>
    rcases attempt_pattern_cases recognizer window s with unmatched | ⟨c, found⟩
    · exact .inl unmatched
    · obtain ⟨_, positive, takes⟩ := attempt_takes member found
      cases takes with
      | group _ _ same _ _ =>
        rw [recognizer] at same
        cases same
      | pattern _ e same ends spans _ =>
        rw [recognizer] at same
        cases same
        have first : (window.take c.length).head? = some opening := by
          rw [List.head?_take, if_neg (Nat.ne_of_gt positive), head]
        have begun := (reaches_of_mem_ends (List.mem_of_mem_head? ends)).begins spans first
        rw [never kind opening closing own] at begun
        cases begun

/-! ### What is selected at the start of a group -/

/-- A group that closes is what is selected. -/
theorem Awaits.select_found {n : Nat} (awaits : Awaits o s kind) (own : delimiters? kind = some (opening, closing))
    (head : window.head? = some opening) (found : balancedLength? opening closing 0 window = some n) :
    ∃ c, select (grammar o).rules window s = .ok c ∧ c.rule.kind = kind := by
  obtain ⟨r, member, below, applies, recognizer⟩ := exists_group_rule awaits own
  have longer : 1 < n := by
    have length := (group_of_balancedLength? (delimiters_apart own) head found).length (delimiters_apart own)
    exact Nat.lt_of_lt_of_le length (List.length_take_le n window)
  have attempted := attempt_eq_found.mpr
    (.procedure applies recognizer (isSome_trigger.mpr head) (balanced_found found) (Nat.zero_lt_of_lt longer))
  have silent (r' : Rule Kind) (member' : r' ∈ (grammar o).rules) (message : Text) : r'.attempt window s ≠ .error message := by
    intro failed
    rcases attempt_at_group member' awaits own head with unmatched | ⟨recognizer', -⟩ | ⟨-, c, found', -⟩
    · cases unmatched.symm.trans failed
    · cases found.symm.trans (fails_group recognizer' failed).2.1
    · cases found'.symm.trans failed
  obtain ⟨c, won⟩ := exists_select member attempted silent
  refine ⟨c, won, ?_⟩
  have wins := select_wins won
  rcases attempt_at_group wins.mem awaits own head with unmatched | ⟨-, kind⟩ | ⟨below', d, single, length⟩
  · cases unmatched.symm.trans wins.found
  · exact kind
  · -- A single delimiter is shorter than the group, so it does not hold against it.
    obtain rfl := Option.some.inj (Except.ok.inj (single.symm.trans wins.found))
    have held := wins.not_beaten member attempted
    refine absurd (beats_iff.mpr (.inr ⟨below.trans below'.symm, ?_⟩)) (Bool.eq_false_iff.mp held)
    rw [length]
    exact longer

/-- Where a group does not close, nothing is selected. -/
theorem Awaits.select_absent (awaits : Awaits o s kind) (own : delimiters? kind = some (opening, closing))
    (head : window.head? = some opening) (absent : balancedLength? opening closing 0 window = none) :
    select (grammar o).rules window s = .error (unbalanced opening) := by
  obtain ⟨r, member, -, applies, recognizer⟩ := exists_group_rule awaits own
  have failed := attempt_eq_error.mpr (.procedure applies recognizer (isSome_trigger.mpr head) (balanced_absent absent))
  refine select_eq_error.mpr (.inl ⟨?_, fun c wins => ?_⟩)
  · cases first : (grammar o).rules.findSome? fun rule => failure? (rule.attempt window s) with
    | none => exact absurd failed (failure?_eq_none.mp (List.findSome?_eq_none_iff.mp first r member) _)
    | some message =>
      obtain ⟨r', member', reason⟩ := List.exists_of_findSome?_eq_some first
      rw [failure?_eq_some] at reason
      rcases attempt_at_group member' awaits own head with unmatched | ⟨recognizer', -⟩ | ⟨-, c, found, -⟩
      · cases unmatched.symm.trans reason
      · rw [(fails_group recognizer' reason).2.2]
      · cases found.symm.trans reason
  · rcases attempt_at_group wins.mem awaits own head with unmatched | ⟨recognizer', -⟩ | ⟨below', -⟩
    · cases unmatched.symm.trans wins.found
    · cases absent.symm.trans (matches_group recognizer' wins.found).2.1
    · exact below'

/-! ### Tokens of groups -/

/-- A token of a group: its text is a group at the start of what rules see, and its lexeme is that text without
continuation markers. -/
structure Captures (o : Options) (S : Lexer.Stream Kind) (opening closing : Char) (token : Token Kind) : Prop where
  group : Group opening closing (o.window.view .netlist S.rest) token.raw
  lexeme : token.lexeme = withoutContinuations token.raw

theorem step_captures (step : (lexer o file keep).step S = .ok (token, S'))
    (own : delimiters? token.kind = some (opening, closing)) : Captures o S opening closing token := by
  obtain ⟨c, steps⟩ := step_spec step
  have recognizer := (meets steps.wins.mem).recognizer (steps.kind ▸ own)
  obtain ⟨head, found, lexeme⟩ := matches_group recognizer steps.wins.found
  refine ⟨?_, ?_⟩
  · rw [steps.raw]
    exact group_of_balancedLength? (delimiters_apart own) head found
  · rw [step_lexeme step steps, lexeme, steps.raw, Option.getD_some]

theorem step_shows (step : (lexer o file keep).step S = .ok (token, S'))
    (own : delimiters? token.kind = some (opening, closing)) : token.suppressed = false := by
  obtain ⟨c, steps⟩ := step_spec step
  rw [steps.suppressed]
  revert own
  cases token.kind <;> simp [delimiters?, emission]

/-- Where a group has to begin, a step makes the token of the group, or fails if none closes. -/
theorem Awaits.step (awaits : Awaits o S.state kind) (own : delimiters? kind = some (opening, closing))
    (head : S.rest.head? = some opening) (file : Option Text) (keep : Bool) :
    (∃ token S', (lexer o file keep).step S = .ok (token, S') ∧ token.kind = kind) ∨
    ((∀ w, ¬ Group opening closing (o.window.view .netlist S.rest) w) ∧
      (lexer o file keep).step S = .error ⟨unbalanced opening, S.state.line, S.state.column, file⟩) := by
  have first : (o.window.view .netlist S.rest).head? = some opening := (o.window.head?_view _ _).trans head
  cases found : balancedLength? opening closing 0 (o.window.view .netlist S.rest) with
  | some n =>
    obtain ⟨c, won, kind⟩ := awaits.beforeMatch.select_found own first found
    exact .inl ⟨_, _, step_of_select won, kind⟩
  | none =>
    have lost := awaits.beforeMatch.select_absent own first found
    exact .inr ⟨not_group_of_balancedLength? (delimiters_apart own) found, step_of_failure lost⟩

/-- Groups are captured as a whole. The text of a token of a group is the shortest beginning of what rules see in which
the delimiters balance, from the opening one on, and its lexeme is that text without continuation markers. Where a group
has to begin, either its token is made or there is no group, and the step fails at the opening delimiter. -/
theorem groups_captured (o : Options) (file : Option Text) (keepSuppressed : Bool) (t : Text) :
    let lexer := lexer o file keepSuppressed
    let start : Lexer.Stream Kind := { rest := t }
    (∀ token opening closing, .token token ∈ lexer.items start → delimiters? token.kind = some (opening, closing) →
      ∃ tokens S S', Matched lexer start tokens S ∧ lexer.step S = .ok (token, S') ∧ Captures o S opening closing token) ∧
    ∀ tokens S kind opening closing, Matched lexer start tokens S → Awaits o S.state kind →
      delimiters? kind = some (opening, closing) → S.rest.head? = some opening →
      (∃ token S', lexer.step S = .ok (token, S') ∧ token.kind = kind ∧ token.suppressed = false ∧
        Captures o S opening closing token) ∨
      ((∀ w, ¬ Group opening closing (o.window.view .netlist S.rest) w) ∧
        ∃ f, lexer.step S = .error f ∧ f.message = unbalanced opening ∧
          Behind (tokens.flatMap Token.raw) f.line f.column) := by
  intro lexer start
  refine ⟨fun token opening closing member own => ?_, fun tokens S kind opening closing run awaits own head => ?_⟩
  · obtain ⟨tokens, S, item, run, ending⟩ := exists_matched lexer start
    rw [run.items_eq rfl ending, List.mem_append, List.mem_singleton] at member
    rcases member with shown | last
    · obtain ⟨token', inside, same⟩ := List.mem_map.mp shown
      cases same
      obtain ⟨earlier, later, rfl⟩ := List.append_of_mem (List.mem_filter.mp inside).1
      obtain ⟨S', first, behind⟩ := run.split
      cases behind with
      | more _ step _ => exact ⟨earlier, S', _, first, step, step_captures step own⟩
    · cases ending with
      | text empty =>
        cases last
        cases own
      | failure nonempty step => cases last
  · rcases awaits.step own head file keepSuppressed with ⟨token, S', step, rfl⟩ | ⟨unclosed, step⟩
    · exact .inl ⟨token, S', step, rfl, step_shows step own, step_captures step own⟩
    · exact .inr ⟨unclosed, _, step, rfl, (tells_of_matched run).behind⟩

/-- Braces in braces over a continuation line, at the start of a text. -/
theorem groups_captured_nested :
    let lexer := lexer {} none false
    let start : Lexer.Stream Kind := { rest := chars "{a
+{b}}" }
    (∃ token tokens S S', .token token ∈ lexer.items start ∧ Matched lexer start tokens S ∧
      lexer.step S = .ok (token, S') ∧ Captures {} S '{' '}' token) ∧
    ∃ token S', lexer.step start = .ok (token, S') ∧ token.kind = .expressionBracket ∧
      Captures {} start '{' '}' token := by
  intro lexer start
  obtain ⟨captured, begun⟩ := groups_captured {} none false (chars "{a
+{b}}")
  obtain ⟨token, member, kind⟩ := exists_token_of_any lexer start (·.kind == .expressionBracket) (by decide +kernel)
  obtain ⟨tokens, S, S', run, step, captures⟩ := captured token '{' '}' member (by rw [eq_of_beq kind]; rfl)
  refine ⟨⟨token, tokens, S, S', member, run, step, captures⟩, ?_⟩
  rcases begun [] start .expressionBracket '{' '}' (.none _) (.expression rfl nofun) rfl rfl with
    ⟨token, S', step, kind, -, captures⟩ | ⟨-, f, failed, -⟩
  · exact ⟨token, S', step, kind, captures⟩
  · obtain ⟨_, _, step, -⟩ := exists_step_of_any lexer start (fun _ => true) (by decide +kernel)
    cases step.symm.trans failed

end Netlist.Spice
