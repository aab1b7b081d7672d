import Netlist.Spice.Grammar
import Netlist.Proofs.Lexer.ByLine
import Netlist.Proofs.Lexer.Suppression
import Netlist.Proofs.Pattern.Greedy

/-!
What the rules of netlists have in common. The kind of a rule alone decides what its action does, and
its matches are those of a pattern at the start of the window or balanced groups.
-/
namespace Netlist.Spice

open Lexer

def fullOptions (keepComments : Bool) : Options := { hasTitle := true, keepComments, busSyntax := true }

variable {o : Options} {r : Rule Kind} {window : Text} {s : State Kind} {c : Candidate Kind}

theorem grammar_sublist (o : Options) : (grammar o).rules.Sublist (grammar (fullOptions o.keepComments)).rules := by
  have option {present : Prop} [Decidable present] (rules : List (Rule Kind)) :
      (if present then rules else []).Sublist rules := by
    split
    · exact .refl _
    · exact List.nil_sublist _
  have comments : (lineComments o).Sublist (lineComments (fullOptions o.keepComments)) :=
    ((option _).append (option _)).cons_cons _
  have blocks : (blockComments o).Sublist (blockComments (fullOptions o.keepComments)) := option _
  have buses : (buses o).Sublist (buses (fullOptions o.keepComments)) := option _
  have title : (if o.hasTitle then [titleRule] else []).Sublist [titleRule] := option _
  have first := (((List.Sublist.refl (separators ++ groups)).append title).append (.refl directives)).append (.refl numbers)
  have second := ((first.append comments).append blocks).append (.refl names)
  exact ((second.append (.refl punctuation)).append buses).append (.refl [newlineRule])

theorem mem_fullGrammar (member : r ∈ (grammar o).rules) : r ∈ (grammar (fullOptions o.keepComments)).rules :=
  (grammar_sublist o).subset member

def offers (o : Options) : Kind → Bool
  | .title => o.hasTitle
  | .blockCommentStart | .blockCommentEnd | .blockCommentContent => o.blockComments
  | _ => true

theorem offers_kind (member : r ∈ (grammar o).rules) : offers o r.kind = true := by
  have all : (grammar o).rules.all (offers o ·.kind) = true := by
    simp only [grammar, lineComments, blockComments, buses, List.all_append, Bool.and_eq_true]
    refine ⟨⟨⟨⟨⟨⟨⟨⟨⟨⟨rfl, rfl⟩, ?_⟩, rfl⟩, rfl⟩, ?_⟩, ?_⟩, rfl⟩, rfl⟩, ?_⟩, rfl⟩
    all_goals repeat' split
    all_goals simp_all [offers, titleRule, rule, keywordRule]
  exact List.all_eq_true.mp all r member

def blockAfter : Kind → Bool → Bool
  | .blockCommentStart, _ => true
  | .blockCommentEnd, _ => false
  | _, inside => inside

def emission (keepComments : Bool) : Kind → Bool → Emit
  | .whitespace, _ | .continuation, _ => .skip
  | .comment, _ | .blockCommentStart, _ | .blockCommentEnd, _ | .blockCommentContent, _ =>
    if keepComments then .token else .skip
  | .newline, inside => if inside then .skip else .token
  | _, _ => .token

theorem action_eq (member : r ∈ (grammar o).rules) (s : State Kind) (lexeme : Text) :
    r.action s lexeme =
      ({ s with inCommentBlock := blockAfter r.kind s.inCommentBlock }, emission o.keepComments r.kind s.inCommentBlock) := by
  have full (keep : Bool) : ∀ r ∈ (grammar (fullOptions keep)).rules, r.action s lexeme =
      ({ s with inCommentBlock := blockAfter r.kind s.inCommentBlock }, emission keep r.kind s.inCommentBlock) := by
    simp only [grammar, fullOptions, separators, groups, titleRule, directives, numbers, lineComments, blockComments,
      names, punctuation, buses, List.forall_mem_append, List.forall_mem_cons, if_true]
    repeat' apply And.intro
    all_goals first | rfl | simp
  exact full _ r (mem_fullGrammar member)

theorem grammar_blind (o : Options) : (grammar o).Blind := by
  intro r member s s' alike lexeme
  have same : s.beforeMatch = s'.beforeMatch := alike
  have inside := congrArg State.inCommentBlock same
  have inside' : s.inCommentBlock = s'.inCommentBlock := inside
  rw [action_eq member, action_eq member, inside']
  have updated := congrArg (fun s : State Kind => { s with inCommentBlock := blockAfter r.kind s'.inCommentBlock }) same
  exact ⟨updated, rfl⟩

inductive Shape : Rule Kind → Prop
  | pattern {r : Rule Kind} (p : Pattern) (recognizer : r.recognizer = .pattern p.atStart) : Shape r
  | group {r : Rule Kind} (opening closing : Char) (closes : closing = '\x7d' ∨ closing = ')')
    (recognizer : r.recognizer = .procedure (.atStart (.set (.single opening))) (balanced opening closing)) : Shape r

theorem shape (member : r ∈ (grammar o).rules) : Shape r := by
  have full (keep : Bool) : ∀ r ∈ (grammar (fullOptions keep)).rules, Shape r := by
    simp only [grammar, fullOptions, separators, groups, titleRule, directives, numbers, lineComments, blockComments,
      names, punctuation, buses, List.forall_mem_append, List.forall_mem_cons, if_true]
    repeat' apply And.intro
    all_goals first | exact .pattern _ rfl | exact .group _ _ (.inl rfl) rfl | exact .group _ _ (.inr rfl) rfl | simp
  exact full _ r (mem_fullGrammar member)

theorem balancedLength?_closes {opening closing : Char} {t : Text} {depth length : Nat}
    (found : balancedLength? opening closing depth t = some length) : (t.take length).getLast? = some closing := by
  induction t generalizing depth length with
  | nil => simp [balancedLength?] at found
  | cons c rest ih =>
    have later {d n : Nat} (eq : balancedLength? opening closing d rest = some n) :
        ((c :: rest).take (n + 1)).getLast? = some closing := by
      rw [List.take_succ_cons, List.getLast?_cons, ih eq]
      rfl
    unfold balancedLength? at found
    split at found
    · obtain ⟨n, eq, rfl⟩ := Option.map_eq_some_iff.mp found
      exact later eq
    · split at found
      · next same =>
        split at found
        · obtain rfl := Option.some.inj found
          simp [same]
        · obtain ⟨n, eq, rfl⟩ := Option.map_eq_some_iff.mp found
          exact later eq
      · obtain ⟨n, eq, rfl⟩ := Option.map_eq_some_iff.mp found
        exact later eq

theorem balanced_eq {opening closing : Char} {capture : Capture} (found : balanced opening closing window s = .ok (some capture)) :
    balancedLength? opening closing 0 window = some capture.length := by
  unfold balanced at found
  split at found
  · next length eq =>
    obtain rfl := Option.some.inj (Except.ok.inj found)
    exact eq
  · cases found

theorem grammar_bounded (o : Options) : (grammar o).Bounded := by
  intro r member trigger matcher same window s capture found
  cases shape member with
  | pattern p recognizer =>
    rw [recognizer] at same
    cases same
  | group opening closing closes recognizer =>
    rw [recognizer] at same
    cases same
    exact (balancedLength?_le (balanced_eq found)).2

inductive Takes (r : Rule Kind) (window w : Text) : Prop
  | pattern (p : Pattern) (e : Cursor) (recognizer : r.recognizer = .pattern p.atStart)
    (head : (p.ends (.start window)).head? = some e) (spans : Cursor.Spans w (.start window) e) (consumes : p.Consumes w)
  | group (opening closing : Char)
    (recognizer : r.recognizer = .procedure (.atStart (.set (.single opening))) (balanced opening closing))
    (closes : closing = '\x7d' ∨ closing = ')') (last : w.getLast? = some closing)

theorem attempt_takes (member : r ∈ (grammar o).rules) (found : r.attempt window s = .ok (some c)) :
    r.applies s = true ∧ 0 < c.length ∧ Takes r window (window.take c.length) := by
  unfold Rule.attempt at found
  split at found
  · cases found
  · next applies =>
    refine ⟨by simpa using applies, ?_⟩
    cases shape member with
    | pattern p recognizer =>
      rw [recognizer] at found
      obtain ⟨length, matched, rfl⟩ := Option.map_eq_some_iff.mp (Except.ok.inj found)
      obtain ⟨ends, positive⟩ := Option.filter_eq_some_iff.mp matched
      obtain ⟨e, head, _, spans, consumes⟩ := Pattern.exists_of_findEnd?_atStart ends
      exact ⟨of_decide_eq_true positive, .pattern p e recognizer head spans consumes⟩
    | group opening closing closes recognizer =>
      rw [recognizer] at found
      dsimp only at found
      split at found
      · cases found
      · split at found
        · cases found
        · next capture? captured =>
          obtain ⟨capture, matched, rfl⟩ := Option.map_eq_some_iff.mp (Except.ok.inj found)
          obtain ⟨rfl, positive⟩ := Option.filter_eq_some_iff.mp matched
          exact ⟨of_decide_eq_true positive,
            .group opening closing recognizer closes (balancedLength?_closes (balanced_eq captured))⟩

/-- What can be computed of every rule holds under all options. -/
theorem all_rules {check : Rule Kind → Bool} (all : ∀ keep, (grammar (fullOptions keep)).rules.all check = true)
    (member : r ∈ (grammar o).rules) : check r = true :=
  List.all_eq_true.mp (all o.keepComments) r (mem_fullGrammar member)

/-- What one step does, as far as the grammar decides it. -/
structure Steps (o : Options) (s : Stream Kind) (token : Token Kind) (s' : Stream Kind) (c : Candidate Kind) : Prop where
  wins : c.Wins (grammar o).rules (o.window.view .netlist s.rest) s.state.beforeMatch
  kind : token.kind = c.rule.kind
  raw : token.raw = (o.window.view .netlist s.rest).take c.length
  line : token.line = s.state.line
  column : token.column = s.state.column
  breaks : s'.state.line = s.state.line + lineBreaks token.raw
  suppressed : token.suppressed = decide (emission o.keepComments token.kind s.state.inCommentBlock = .skip)
  previous : s'.state.previous = if token.suppressed then s.state.previous else some token.kind
  inCommentBlock : s'.state.inCommentBlock = blockAfter token.kind s.state.inCommentBlock
  place : ∀ consumed, State.At consumed s.state → ¬ SplitsPair consumed token.raw → State.At (consumed ++ token.raw) s'.state

theorem step_spec {file : Option Text} {keep : Bool} {s s' : Stream Kind} {token : Token Kind}
    (step : (lexer o file keep).step s = .ok (token, s')) : ∃ c, Steps o s token s' c := by
  have shown (emit : Emit) (previous next : Option Kind) :
      (if emit = .token then next else previous) = if decide (emit = .skip) then previous else next := by
    cases emit <;> rfl
  unfold Lexer.step at step
  split at step
  · next c won =>
    have wins := select_wins won
    obtain ⟨_, inside⟩ := select_fits (grammar_bounded o) won
    obtain ⟨more, pieces, _⟩ := o.window.view_pieces .netlist s.rest
    have raw : s.rest.take c.length = (o.window.view .netlist s.rest).take c.length := by
      conv => lhs; rw [pieces]
      exact List.take_append_of_le_length inside
    have acted := action_eq wins.mem (s.state.beforeMatch.atMatch s.rest c.length) (c.lexeme.getD (s.rest.take c.length))
    rw [accept_eq acted] at step
    obtain ⟨rfl, rfl⟩ := Prod.mk.inj (Except.ok.inj step)
    refine ⟨c, wins, rfl, raw, rfl, rfl, ?_, rfl, ?_, ?_, fun consumed place whole => ?_⟩
    · rw [State.advance_eq]
      rfl
    · exact shown _ _ _
    · exact State.advance_inCommentBlock _ _
    · have entered : State.At consumed { s.state.beforeMatch.atMatch s.rest c.length with
          inCommentBlock := blockAfter c.rule.kind s.state.inCommentBlock } := place.congr rfl rfl rfl
      exact (entered.advance whole).congr rfl rfl rfl
  · cases step

/-- What a step consumes is a part of what its rule sees, and behind that the text goes on in a new line. -/
theorem Steps.pieces {s s' : Stream Kind} {token : Token Kind} (steps : Steps o s token s' c)
    (rest : s.rest = token.raw ++ s'.rest) :
    ∃ seen more, o.window.view .netlist s.rest = token.raw ++ seen ∧ s'.rest = seen ++ more ∧
      (more ≠ [] → LineSeam (o.window.view .netlist s.rest) more) := by
  obtain ⟨more, pieces, seam⟩ := o.window.view_pieces .netlist s.rest
  have view : o.window.view .netlist s.rest = token.raw ++ (o.window.view .netlist s.rest).drop c.length := by
    rw [steps.raw, List.take_append_drop]
  refine ⟨_, more, view, ?_, seam⟩
  rw [view, List.append_assoc] at pieces
  exact List.append_cancel_left (rest.symm.trans pieces)

/-! ### Silent tokens that are shown -/

theorem step_shown (o : Options) (file : Option Text) (keep keep' : Bool) (s : Stream Kind) :
    (lexer o file keep).step s = (lexer o file keep').step s := step_showing (lexer o file keep') keep s

theorem Ending.shown {file : Option Text} {keep keep' : Bool} {s : Stream Kind} {item : Item Kind}
    (ending : Ending (lexer o file keep) s item) : Ending (lexer o file keep') s item :=
  ending.showing keep'

end Netlist.Spice
