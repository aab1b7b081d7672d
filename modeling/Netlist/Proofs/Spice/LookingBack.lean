import Netlist.Proofs.Spice.Markers
import Netlist.Proofs.Spice.Rules

/-!
Rules that look at the token before them. These are the title, conditions and bus suffixes, and none of them
applies behind a comment. The rules that match there are a part of those that match anywhere else, so what
is selected changes only where one of these three would be.
-/
namespace Netlist.Spice

open Lexer

variable {o : Options} {r : Rule Kind} {window : Text} {s : State Kind} {p : Option Kind} {c : Candidate Kind}

def isComment : Kind → Bool
  | .comment | .blockCommentStart | .blockCommentEnd | .blockCommentContent => true
  | _ => false

/-! ### Rules that look back -/

def leansBack : Kind → Bool
  | .booleanExpression | .busSuffix => true
  | _ => false

inductive LooksBack (r : Rule Kind) : Prop
  | never (kind : leansBack r.kind = false) (applies : ∀ (s : State Kind) p, r.applies { s with previous := p } = r.applies s)
  | title (rule : r = titleRule)
  | condition (kind : leansBack r.kind = true) (applies : ∀ s, r.applies s = (!s.inCommentBlock && s.previousIs [.if, .elseIf]))
  | suffix (kind : leansBack r.kind = true) (applies : ∀ s, r.applies s = s.previousIs [.word, .identifier, .busSuffix])

theorem looksBack (member : r ∈ (grammar o).rules) : LooksBack r := by
  have full (keep : Bool) : ∀ r ∈ (grammar (fullOptions keep)).rules, LooksBack r := by
    simp only [grammar, fullOptions, separators, groups, directives, numbers, lineComments, blockComments,
      names, punctuation, buses, List.forall_mem_append, List.forall_mem_cons, if_true]
    repeat' apply And.intro
    all_goals first
      | exact .never rfl fun _ _ => rfl
      | exact .title rfl
      | exact .condition rfl fun _ => rfl
      | exact .suffix rfl fun _ => rfl
      | simp
  exact full _ r (mem_fullGrammar member)

theorem previousIs_comment {kinds : List Kind} (others : ∀ k ∈ kinds, isComment k = false) (comment : p.any isComment = true)
    (s : State Kind) : State.previousIs { s with previous := p } kinds = false := by
  cases p with
  | none => rfl
  | some k =>
    have outside : k ∉ kinds := fun member => by
      have comment' : isComment k = true := comment
      rw [others k member] at comment'
      cases comment'
    simpa [State.previousIs] using outside

/-- Behind a comment, a rule that looks back does not apply. -/
theorem LooksBack.applies_comment (back : LooksBack r) (comment : p.any isComment = true) (s : State Kind) :
    (leansBack r.kind = false ∧ r.applies { s with previous := p } = r.applies s) ∨
      ((r = titleRule ∨ leansBack r.kind = true) ∧ r.applies { s with previous := p } = false) := by
  cases back with
  | never kind applies => exact .inl ⟨kind, applies s _⟩
  | title rule =>
    cases p with
    | none => cases comment
    | some k => exact .inr ⟨.inl rule, by simp [rule, titleRule]⟩
  | condition kind applies =>
    have others : ∀ k ∈ [Kind.if, .elseIf], isComment k = false := by simp [isComment]
    exact .inr ⟨.inr kind, by rw [applies, previousIs_comment others comment, Bool.and_false]⟩
  | suffix kind applies =>
    have others : ∀ k ∈ [Kind.word, .identifier, .busSuffix], isComment k = false := by simp [isComment]
    exact .inr ⟨.inr kind, (applies _).trans (previousIs_comment others comment s)⟩

theorem attempt_silent (silent : r.applies s = false) : r.attempt window s = .ok none := by
  unfold Rule.attempt
  rw [if_pos (by simp [silent])]

theorem attempt_congr (member : r ∈ (grammar o).rules) {s' : State Kind} (same : r.applies s' = r.applies s) :
    r.attempt window s' = r.attempt window s := by
  unfold Rule.attempt
  rw [same]
  cases shape member with
  | pattern p recognizer => rw [recognizer]
  | group opening closing closes recognizer =>
    rw [recognizer]
    rfl

theorem fewer_comment (o : Options) (window : Text) (s : State Kind) (comment : p.any isComment = true) :
    Fewer (grammar o).rules window s { s with previous := p } := by
  intro r member
  rcases (looksBack member).applies_comment comment s with ⟨_, same⟩ | ⟨_, silent⟩
  · exact .inl (attempt_congr member same)
  · exact .inr (attempt_silent silent)

def unbalanced (opening : Char) : Text := chars "unbalanced \x60" ++ opening :: chars "\x60"

def fitsGroups (r : Rule Kind) : Bool :=
  match r.recognizer with
  | .pattern _ => true
  | .procedure trigger _ =>
    (trigger == .atStart (.set (.single '(')) && r.kind == .booleanExpression) ||
      (trigger == .atStart (.set (.single '\x7b')) && r.kind == .expressionBracket)

theorem rules_fitGroups (keep : Bool) : (grammar (fullOptions keep)).rules.all fitsGroups = true := by
  cases keep <;> rfl

theorem attempt_error (member : r ∈ (grammar o).rules) {message : Text}
    (failed : r.attempt window s = .error message) :
    (r.kind = .booleanExpression ∧ message = unbalanced '(') ∨ (r.kind = .expressionBracket ∧ message = unbalanced '\x7b') := by
  have fits := all_rules rules_fitGroups member
  unfold Rule.attempt at failed
  split at failed
  · cases failed
  · cases shape member with
    | pattern p recognizer =>
      rw [recognizer] at failed
      cases failed
    | group opening closing closes recognizer =>
      rw [recognizer] at failed
      have text : message = unbalanced opening := by
        dsimp only at failed
        split at failed
        · cases failed
        · split at failed
          · next same =>
            cases failed
            unfold balanced at same
            split at same
            · cases same
            · exact (Except.error.inj same).symm
          · cases failed
      simp only [fitsGroups, recognizer, Bool.or_eq_true, Bool.and_eq_true, beq_iff_eq] at fits
      rcases fits with ⟨same, kind⟩ | ⟨same, kind⟩
      · cases same
        exact .inl ⟨kind, text⟩
      · cases same
        exact .inr ⟨kind, text⟩

/-! ### The title -/

def staysInside (r : Rule Kind) : Bool :=
  match r.recognizer with
  | .pattern p => !isComment r.kind || (!p.uses '\n' && !p.uses '\r')
  | .procedure .. => !isComment r.kind

theorem rules_stayInside (keep : Bool) : (grammar (fullOptions keep)).rules.all staysInside = true := by
  cases keep <;> rfl

theorem Takes.inside {w : Text} (member : r ∈ (grammar o).rules) (takes : Takes r window w) (comment : isComment r.kind = true) :
    ∀ x ∈ w, isLineBreak x = false := by
  have fits := all_rules rules_stayInside member
  cases takes with
  | group opening closing recognizer closes last => simp [staysInside, recognizer, comment] at fits
  | pattern p e recognizer head spans taken =>
    have unused : p.uses '\n' = false ∧ p.uses '\r' = false := by
      simpa [staysInside, recognizer, comment, Pattern.atStart, Pattern.uses] using fits
    exact taken.inside_line unused.1 unused.2

theorem titleRule_mem_earlier {earlier later : List (Rule Kind)} (split : (grammar o).rules = earlier ++ r :: later)
    (comment : isComment r.kind = true) (title : o.hasTitle = true) : titleRule ∈ earlier := by
  obtain ⟨rest, parts⟩ : ∃ rest, (grammar o).rules = (separators ++ groups ++ [titleRule]) ++ rest := by
    simp only [grammar, title, if_true, List.append_assoc]
    exact ⟨_, rfl⟩
  have others : (separators ++ groups ++ [titleRule]).all (!isComment ·.kind) = true := rfl
  rcases List.append_eq_append_iff.mp (split.symm.trans parts) with ⟨between, eq, eq'⟩ | ⟨between, rfl, _⟩
  · cases between with
    | nil =>
      rw [List.append_nil] at eq
      exact eq ▸ List.mem_append_right _ List.mem_cons_self
    | cons r' between =>
      obtain rfl := (List.cons.inj eq').1
      have own := List.all_eq_true.mp others r (by simp [eq])
      simp [comment] at own
  · exact List.mem_append_left _ (List.mem_append_right _ List.mem_cons_self)

theorem exists_title_attempt (applies : titleRule.applies s = true) {x : Char} {rest : Text}
    (inside : isLineBreak x = false) :
    ∃ d, titleRule.attempt (x :: rest) s = .ok (some d) ∧ d.length = ((x :: rest).takeWhile (!isLineBreak ·)).length := by
  obtain ⟨e, head, spans⟩ := Pattern.oneOrMore_set_head? (c := .start (x :: rest))
    (s := .complement (.ofList (chars "\r\n"))) rfl ((congrFun contains_noBreaks x).trans (by simp [inside]))
  rw [contains_noBreaks] at spans
  have offset : e.offset = ((x :: rest).takeWhile (!isLineBreak ·)).length := spans.offset.trans (Nat.zero_add _)
  have positive : 0 < e.offset := by simp [offset, inside]
  obtain ⟨d, found, length⟩ := exists_attempt rfl applies head positive
  exact ⟨d, found, length.trans offset⟩

/-- Where the title applies, no comment wins. -/
theorem untitled (wins : c.Wins (grammar o).rules window s) (comment : isComment c.rule.kind = true)
    (title : o.hasTitle = true) : titleRule.applies s = false := by
  rw [Bool.eq_false_iff]
  intro applies
  obtain ⟨_, _, takes⟩ := attempt_takes wins.mem wins.found
  have inside := takes.inside wins.mem comment
  obtain ⟨positive, fits⟩ := attempt_fits (grammar_bounded o _ wins.mem) wins.found
  obtain ⟨earlier, later, split, before, _⟩ := wins.split
  cases window with
  | nil => exact absurd fits (Nat.not_le.mpr positive)
  | cons x rest =>
    have first : isLineBreak x = false := by
      obtain ⟨n, length⟩ := Nat.exists_eq_succ_of_ne_zero (Nat.ne_of_gt positive)
      exact inside x (by simp [length])
    obtain ⟨d, found, length⟩ := exists_title_attempt applies first
    have ahead := before titleRule (titleRule_mem_earlier split comment title) d found
    -- The title takes the whole line, so the comment, which comes later in the order, would have to be longer.
    have longest : c.length ≤ d.length := by
      have taken : (x :: rest).takeWhile (!isLineBreak ·) =
          (x :: rest).take c.length ++ ((x :: rest).drop c.length).takeWhile (!isLineBreak ·) := by
        conv => lhs; rw [← List.take_append_drop c.length (x :: rest)]
        exact List.takeWhile_append_of_pos fun y member => by simp [inside y member]
      rw [length, taken, List.length_append, List.length_take_of_le fits]
      exact Nat.le_add_right _ _
    have top : d.rule.top = true := by rw [attempt_rule found]; rfl
    simp only [Candidate.beats, top, Bool.not_true, Bool.and_false, Bool.false_or, Bool.and_eq_true, decide_eq_true_eq] at ahead
    omega

/-! ### What is selected behind a comment -/

/-- What is selected elsewhere is selected behind a comment, unless it looks back. -/
theorem select_ok_comment (comment : p.any isComment = true) (won : select (grammar o).rules window s = .ok c)
    (plain : leansBack c.rule.kind = false) (title : o.hasTitle = true → titleRule.applies s = false) :
    select (grammar o).rules window { s with previous := p } = .ok c := by
  have wins := select_wins won
  obtain ⟨applies, _⟩ := attempt_takes wins.mem wins.found
  refine (fewer_comment o window s comment).select_ok won ?_
  rcases (looksBack wins.mem).applies_comment comment s with ⟨_, same⟩ | ⟨rule | leans, _⟩
  · exact (attempt_congr wins.mem same).trans wins.found
  · have offered : offers o titleRule.kind = true := offers_kind (rule ▸ wins.mem)
    rw [rule, title offered] at applies
    cases applies
  · rw [plain] at leans
    cases leans

/-- What fails elsewhere fails behind a comment, unless it is a condition. -/
theorem select_error_comment {message : Text} (comment : p.any isComment = true)
    (lost : select (grammar o).rules window s = .error message) (other : message ≠ unbalanced '(') :
    select (grammar o).rules window { s with previous := p } = .error message := by
  refine (fewer_comment o window s comment).select_error lost fun r member failed => ?_
  rcases attempt_error member failed with ⟨_, text⟩ | ⟨kind, _⟩
  · exact absurd text other
  · rcases (looksBack member).applies_comment comment s with ⟨_, same⟩ | ⟨rule | leans, _⟩
    · exact (attempt_congr member same).trans failed
    · rw [rule] at kind
      cases kind
    · rw [kind] at leans
      cases leans

theorem leansBack_of_select (comment : s.previous.any isComment = true) (won : select (grammar o).rules window s = .ok c) :
    leansBack c.rule.kind = false := by
  have wins := select_wins won
  obtain ⟨applies, _⟩ := attempt_takes wins.mem wins.found
  rcases (looksBack wins.mem).applies_comment comment s with ⟨plain, _⟩ | ⟨_, silent⟩
  · exact plain
  · rw [silent] at applies
    cases applies

theorem noMatchMessage_ne_unbalanced (window : Text) (opening : Char) : noMatchMessage window ≠ unbalanced opening := by
  intro same
  cases congrArg List.head? same

theorem message_ne_of_select {message : Text} (comment : s.previous.any isComment = true)
    (lost : select (grammar o).rules window s = .error message) : message ≠ unbalanced '(' := by
  rcases select_eq_error.mp lost with ⟨failed, _⟩ | ⟨rfl, _⟩
  · obtain ⟨r, member, failed⟩ := List.exists_of_findSome?_eq_some failed
    rw [failure?_eq_some] at failed
    rcases attempt_error member failed with ⟨kind, _⟩ | ⟨_, rfl⟩
    · rcases (looksBack member).applies_comment comment s with ⟨plain, _⟩ | ⟨_, silent⟩
      · rw [kind] at plain
        cases plain
      · rw [show r.attempt window s = .ok none from attempt_silent silent] at failed
        cases failed
    · decide
  · exact noMatchMessage_ne_unbalanced _ _

end Netlist.Spice
