import Netlist.Proofs.Spice.LookingBack

/-!
Comments that are kept. They are tokens like others, so behind them the rules that look back miss the token
that stands before the comment. Apart from that, keeping comments only adds tokens.
-/
namespace Netlist.Spice

open Lexer

variable {o : Options} {file : Option Text} {s s' : Stream Kind} {token : Token Kind} {p : Option Kind} {c : Candidate Kind}
  {behind : Bool}

/-! ### Both runs -/

abbrev keeping (o : Options) (file : Option Text) : Lexer Kind := lexer { o with keepComments := true } file false

abbrev discarding (o : Options) (file : Option Text) (all : Bool) : Lexer Kind := lexer { o with keepComments := false } file all

def kindAction (keepComments : Bool) : Kind → State Kind → Text → State Kind × Emit := fun kind s _ =>
  ({ s with inCommentBlock := blockAfter kind s.inCommentBlock }, emission keepComments kind s.inCommentBlock)

/-- Whether comments are kept is only a matter of actions. -/
theorem rules_keepComments (o : Options) :
    (grammar { o with keepComments := true }).rules =
      (grammar { o with keepComments := false }).rules.map (·.acting (kindAction true)) := by
  have comments : lineComments { o with keepComments := true } =
      (lineComments { o with keepComments := false }).map (·.acting (kindAction true)) := by
    unfold lineComments
    cases o.hspiceComments <;> cases o.pspiceComments <;> rfl
  have blocks : blockComments { o with keepComments := true } =
      (blockComments { o with keepComments := false }).map (·.acting (kindAction true)) := by
    unfold blockComments
    cases o.blockComments <;> rfl
  have title : (if o.hasTitle then [titleRule] else []).map (·.acting (kindAction true)) = if o.hasTitle then [titleRule] else [] := by
    cases o.hasTitle <;> rfl
  have buses : (Spice.buses { o with keepComments := false }).map (·.acting (kindAction true)) =
      Spice.buses { o with keepComments := true } := by
    unfold Spice.buses
    cases o.busSyntax <;> rfl
  simp only [grammar, List.map_append, comments, blocks, title, buses]
  rfl

def withPrevious (p : Option Kind) (s : Stream Kind) : Stream Kind := { s with state := { s.state with previous := p } }

theorem emission_keepComments (kind : Kind) (inside : Bool) :
    decide (emission true kind inside = .skip) = (decide (emission false kind inside = .skip) && !isComment kind) := by
  cases kind <;> cases inside <;> rfl

def made (file : Option Text) (suppressed : Bool) (s : Stream Kind) (c : Candidate Kind) : Token Kind × Stream Kind :=
  ({ kind := c.rule.kind, lexeme := c.lexeme.getD (s.rest.take c.length), raw := s.rest.take c.length
     start := s.position, stop := s.position + byteSize (s.rest.take c.length)
     line := s.state.line, column := s.state.column, file, suppressed },
    { s with
      rest := s.rest.drop c.length, position := s.position + byteSize (s.rest.take c.length)
      state := { (s.state.beforeMatch.atMatch s.rest c.length).advance (s.rest.take c.length) with
        inCommentBlock := blockAfter c.rule.kind s.state.inCommentBlock
        previous := if suppressed then s.state.previous else some c.rule.kind } })

theorem accept_eq_made {keep keep' : Bool} (acted : c.rule.action = kindAction keep c.rule.kind) :
    (lexer o file keep').accept s c = made file (emission keep c.rule.kind s.state.inCommentBlock = .skip) s c := by
  have acted' : c.rule.action (s.state.beforeMatch.atMatch s.rest c.length) (c.lexeme.getD (s.rest.take c.length)) =
      ({ s.state.beforeMatch.atMatch s.rest c.length with
          inCommentBlock := blockAfter c.rule.kind s.state.inCommentBlock },
        emission keep c.rule.kind s.state.inCommentBlock) :=
    congrFun (congrFun acted _) _
  unfold made
  rw [accept_eq acted', State.advance_eq, State.advance_eq]
  cases emission keep c.rule.kind s.state.inCommentBlock <;> rfl

theorem made_withPrevious (file : Option Text) (suppressed suppressed' : Bool) (s : Stream Kind) (p : Option Kind) (c : Candidate Kind) :
    made file suppressed (withPrevious p s) (c.acting (kindAction true)) =
      ({ (made file suppressed' s c).1 with suppressed },
        withPrevious (if suppressed then p else some c.rule.kind) (made file suppressed' s c).2) := by
  unfold made
  rw [State.advance_eq, State.advance_eq]
  rfl

theorem accept_withPrevious {all : Bool} (member : c.rule ∈ (grammar { o with keepComments := false }).rules)
    (accepted : (discarding o file all).accept s c = (token, s')) :
    (keeping o file).accept (withPrevious p s) (c.acting (kindAction true)) =
      ({ token with suppressed := token.suppressed && !isComment token.kind },
        withPrevious (if token.suppressed && !isComment token.kind then p else some token.kind) s') := by
  have acted : c.rule.action = kindAction false c.rule.kind :=
    funext fun s => funext fun lexeme => action_eq member s lexeme
  have kept : (c.acting (kindAction true)).rule.action = kindAction true (c.acting (kindAction true)).rule.kind := rfl
  have hidden : decide (emission true (c.acting (kindAction true)).rule.kind (withPrevious p s).state.inCommentBlock = .skip) = _ :=
    emission_keepComments c.rule.kind s.state.inCommentBlock
  rw [accept_eq_made acted] at accepted
  rw [accept_eq_made kept, hidden, made_withPrevious file _ (emission false c.rule.kind s.state.inCommentBlock = .skip), accepted]
  obtain ⟨rfl, rfl⟩ := Prod.mk.inj accepted
  rfl

/-- Where the run that keeps comments is, seen from the other one: it has the same token behind it, or a
comment. A title is not to come behind a comment. -/
structure Follows (o : Options) (behind : Bool) (p : Option Kind) (s : Stream Kind) : Prop where
  previous : if behind then p.any isComment = true else p = s.state.previous
  title : behind = true → o.hasTitle = true → titleRule.applies s.state = false
  line : 0 < s.state.line

theorem Follows.start (o : Options) (t : Text) : Follows o false none { rest := t } :=
  ⟨rfl, nofun, Nat.one_pos⟩

theorem Steps.silent (steps : Steps { o with keepComments := false } s token s' c) :
    (isComment token.kind = true → token.suppressed = true) ∧ (token.suppressed = true → leansBack token.kind = false) := by
  rw [steps.suppressed]
  cases token.kind <;> simp [isComment, leansBack, emission]

theorem Follows.next {all : Bool} (follows : Follows o behind p s)
    (step : (discarding o file all).step s = .ok (token, s')) :
    Follows o (token.suppressed && (behind || isComment token.kind))
      (if token.suppressed && !isComment token.kind then p else some token.kind) s' := by
  obtain ⟨c, steps⟩ := step_spec step
  have previous := steps.previous
  refine ⟨?_, fun behind' title => ?_, ?_⟩
  · have before := follows.previous
    cases silent : token.suppressed with
    | false => simp [previous, silent]
    | true =>
      cases comment : isComment token.kind with
      | true => simp [comment]
      | false =>
        rw [silent, if_pos rfl] at previous
        simpa [previous] using before
  · obtain ⟨silent, reason⟩ := Bool.and_eq_true_iff.mp behind'
    rw [silent, if_pos rfl] at previous
    have silent : titleRule.applies s.state = false := by
      rcases Bool.or_eq_true_iff.mp reason with before | comment
      · exact follows.title before title
      · have never : titleRule.applies s.state.beforeMatch = false := untitled steps.wins (steps.kind ▸ comment) title
        exact never
    have later := steps.breaks
    have first := follows.line
    simp only [titleRule, Bool.and_eq_false_iff, beq_eq_false_iff_ne] at silent ⊢
    rw [previous]
    exact silent.imp_left fun other => by omega
  · rw [steps.breaks]
    exact Nat.add_pos_left follows.line _

theorem select_keepComments_ok {window : Text} {s : State Kind}
    (won : select (grammar { o with keepComments := false }).rules window s = .ok c) :
    select (grammar { o with keepComments := true }).rules window s = .ok (c.acting (kindAction true)) := by
  rw [rules_keepComments, select_acting, won]
  rfl

theorem select_keepComments_error {window message : Text} {s : State Kind}
    (lost : select (grammar { o with keepComments := false }).rules window s = .error message) :
    select (grammar { o with keepComments := true }).rules window s = .error message := by
  rw [rules_keepComments, select_acting, lost]
  rfl

theorem Follows.step_ok {all : Bool} (follows : Follows o behind p s) (step : (discarding o file all).step s = .ok (token, s'))
    (apart : (behind && leansBack token.kind) = false) :
    (keeping o file).step (withPrevious p s) =
      .ok ({ token with suppressed := token.suppressed && !isComment token.kind },
        withPrevious (if token.suppressed && !isComment token.kind then p else some token.kind) s') := by
  obtain ⟨d, steps⟩ := step_spec step
  unfold Lexer.step at step
  split at step
  · next c won =>
    obtain rfl := (select_wins won).unique steps.wins
    have won' : select (grammar { o with keepComments := false }).rules (o.window.view .netlist s.rest)
        { s.state.beforeMatch with previous := p } = .ok c := by
      cases behind with
      | false =>
        obtain rfl : p = s.state.previous := follows.previous
        exact won
      | true =>
        have plain : leansBack c.rule.kind = false := steps.kind ▸ apart
        exact select_ok_comment follows.previous won plain (follows.title rfl)
    have stepped : (keeping o file).step (withPrevious p s) =
        .ok ((keeping o file).accept (withPrevious p s) (c.acting (kindAction true))) :=
      step_of_select (select_keepComments_ok won')
    rw [stepped, accept_withPrevious steps.wins.mem (Except.ok.inj step)]
  · cases step

theorem Follows.step_error {all : Bool} {f : Lexer.Failure} (follows : Follows o behind p s)
    (step : (discarding o file all).step s = .error f) (apart : (behind && f.message == unbalanced '(') = false) :
    (keeping o file).step (withPrevious p s) = .error f := by
  unfold Lexer.step at step
  split at step
  · cases step
  · next message lost =>
    cases step
    have lost' : select (grammar { o with keepComments := false }).rules (o.window.view .netlist s.rest)
        { s.state.beforeMatch with previous := p } = .error message := by
      cases behind with
      | false =>
        obtain rfl : p = s.state.previous := follows.previous
        exact lost
      | true => exact select_error_comment follows.previous lost (by simpa using apart)
    exact step_of_failure (s := withPrevious p s) (select_keepComments_error lost')

/-! ### What is shown -/

def isCommentItem : Item Kind → Bool
  | .token token => isComment token.kind
  | .failure _ => false

@[simp] theorem isCommentItem_token (token : Token Kind) : isCommentItem (.token token) = isComment token.kind := rfl

def leansBackItem : Item Kind → Bool
  | .token token => leansBack token.kind
  | .failure f => f.message == unbalanced '('

/-- Whether among items, those that are silent included, a comment stands between one that depends on the
token before it and that token. The flag tells whether a comment stands before the first of them. -/
def cutOff : Bool → List (Item Kind) → Bool
  | _, [] => false
  | behind, .failure f :: _ => behind && leansBackItem (.failure f)
  | behind, .token token :: items =>
    if token.suppressed then cutOff (behind || isComment token.kind) items
    else (behind && leansBack token.kind) || cutOff false items

theorem step_comment {keep : Bool} (comment : s.state.previous.any isComment = true) :
    (∀ token s', (lexer o file keep).step s = .ok (token, s') → leansBack token.kind = false) ∧
      ∀ f, (lexer o file keep).step s = .error f → f.message ≠ unbalanced '(' := by
  have comment' : s.state.beforeMatch.previous.any isComment = true := comment
  unfold Lexer.step
  constructor
  · intro token s' step
    split at step
    · next c won =>
      obtain ⟨rfl, _⟩ := Prod.mk.inj (Except.ok.inj step)
      exact leansBack_of_select (o := o) comment' won
    · cases step
  · intro f step
    split at step
    · cases step
    · next message lost =>
      cases step
      exact message_ne_of_select (o := o) comment' lost

/-- Behind a comment, the next item that is none does not depend on the token before it. -/
theorem head_behind_comment (running : s.finished = false) (comment : s.state.previous.any isComment = true) {item : Item Kind}
    (head : (((keeping o file).items s).filter (!isCommentItem ·)).head? = some item) :
    leansBackItem item = false := by
  obtain ⟨tokens, s', last, run, ending⟩ := exists_matched (keeping o file) s
  induction run with
  | none s =>
    rw [ending.items running] at head
    cases ending with
    | text empty =>
      cases head
      rfl
    | failure nonempty step =>
      cases head
      have other := (step_comment comment).2 _ step
      simp [leansBackItem, other]
  | @more s s' s'' token tokens nonempty step _ ih =>
    obtain ⟨c, steps⟩ := step_spec step
    have later := ih ((step_shortens nonempty step).2.trans running)
    have previous := steps.previous
    rw [items_ok running nonempty step, shows] at head
    cases silent : token.suppressed with
    | true =>
      rw [silent, if_pos rfl] at previous
      rw [silent] at head
      exact later (previous ▸ comment) head ending
    | false =>
      rw [silent, if_neg Bool.false_ne_true] at previous
      rw [silent, Bool.not_false, Bool.true_or, if_pos rfl, List.filter_cons] at head
      split at head
      · cases head
        exact (step_comment comment).1 _ _ step
      · next other =>
        refine later ?_ head ending
        rw [previous]
        simpa [isCommentItem] using other

theorem shows_eq (o : Options) (file : Option Text) (all : Bool) (token : Token Kind) :
    (lexer o file all).shows token = (!token.suppressed || all) := rfl

theorem ne_cons_of_leansBack (running : s.finished = false) (comment : p.any isComment = true) {item : Item Kind}
    (leans : leansBackItem item = true) (items : List (Item Kind)) :
    ((keeping o file).items (withPrevious p s)).filter (!isCommentItem ·) ≠ item :: items := by
  intro same
  have running' : (withPrevious p s).finished = false := running
  have other := head_behind_comment running' comment (congrArg List.head? same)
  exact absurd (other.symm.trans leans) nofun

/-- Where nothing that depends on the token before it is cut off by a comment, and only there, both runs show
the same from here on. -/
def Agree (o : Options) (file : Option Text) (behind : Bool) (p : Option Kind) (s : Stream Kind) : Prop :=
  ((keeping o file).items (withPrevious p s)).filter (!isCommentItem ·) = (discarding o file false).items s ↔
    cutOff behind ((discarding o file true).items s) = false

theorem Follows.agree_ending {item : Item Kind} (follows : Follows o behind p s) (running : s.finished = false)
    (ending : Ending (discarding o file false) s item) : Agree o file behind p s := by
  have running' : (withPrevious p s).finished = false := running
  rw [Agree, ending.items running, (Ending.shown ending).items running]
  cases ending with
  | text empty =>
    have ended : Ending (keeping o file) (withPrevious p s) _ := .text empty
    have same : (keeping o file).endToken (withPrevious p s) = (discarding o file false).endToken s := rfl
    have plain : cutOff behind [.token ((discarding o file false).endToken s)] = (behind && false || false) := rfl
    rw [ended.items running', same, plain, Bool.and_false]
    exact iff_of_true rfl rfl
  | @failure f nonempty step =>
    rw [cutOff]
    cases cut : behind && leansBackItem (.failure f) with
    | true =>
      obtain ⟨rfl, leans⟩ := Bool.and_eq_true_iff.mp cut
      exact iff_of_false (ne_cons_of_leansBack running follows.previous leans []) nofun
    | false =>
      have ended : Ending (keeping o file) (withPrevious p s) _ := .failure nonempty (follows.step_error step cut)
      rw [ended.items running']
      exact iff_of_true rfl rfl

theorem Follows.agree_step (follows : Follows o behind p s) (running : s.finished = false) (nonempty : s.rest ≠ [])
    (step : (discarding o file false).step s = .ok (token, s'))
    (later : Agree o file (token.suppressed && (behind || isComment token.kind))
      (if token.suppressed && !isComment token.kind then p else some token.kind) s') : Agree o file behind p s := by
  have running' : (withPrevious p s).finished = false := running
  have visible : (discarding o file true).shows token = true := Bool.or_true _
  have step' : (discarding o file true).step s = .ok (token, s') := (step_shown _ _ _ _ _).trans step
  obtain ⟨c, steps⟩ := step_spec step
  obtain ⟨quiet, plain⟩ := steps.silent
  unfold Agree at later ⊢
  rw [items_ok running nonempty step, items_ok running nonempty step', if_pos visible, cutOff]
  cases silent : token.suppressed with
  | true =>
    have apart : (behind && leansBack token.kind) = false := by rw [plain silent, Bool.and_false]
    have stepped := follows.step_ok step apart
    have hidden : (discarding o file false).shows token = false := by simp [shows_eq, silent]
    rw [if_neg (by simp [hidden]), if_pos rfl, items_ok running' nonempty stepped]
    -- A comment is shown in one run alone and left out there; from here on it stands behind that run.
    rw [silent] at later ⊢
    cases comment : isComment token.kind with
    | true => simpa [shows_eq, comment] using later
    | false => simpa [shows_eq, comment] using later
  | false =>
    have other : isComment token.kind = false := by
      rw [Bool.eq_false_iff]
      exact fun comment => absurd ((quiet comment).symm.trans silent) nofun
    have shown : (discarding o file false).shows token = true := by simp [shows_eq, silent]
    rw [if_pos shown, if_neg nofun]
    cases cut : behind && leansBack token.kind with
    | true =>
      obtain ⟨rfl, leans⟩ := Bool.and_eq_true_iff.mp cut
      have leans' : leansBackItem (.token token) = true := leans
      exact iff_of_false (ne_cons_of_leansBack running follows.previous leans' _) nofun
    | false =>
      have stepped := follows.step_ok step cut
      have same : { token with suppressed := token.suppressed && !isComment token.kind } = token := by rw [other]; simp
      rw [same] at stepped
      have shown' : (keeping o file).shows token = true := by simp [shows_eq, silent]
      rw [items_ok running' nonempty stepped, if_pos shown', List.filter_cons_of_pos (by simp [other])]
      rw [silent] at later ⊢
      simpa using later

/-- The induction is on the run that discards comments; what the other one has behind it changes with each step. -/
theorem Follows.agree (follows : Follows o behind p s) (running : s.finished = false) : Agree o file behind p s := by
  obtain ⟨tokens, s', last, run, ending⟩ := exists_matched (discarding o file false) s
  induction run generalizing p behind with
  | none s => exact follows.agree_ending running ending
  | more nonempty step _ ih =>
    have running' := (step_shortens nonempty step).2.trans running
    exact follows.agree_step running nonempty step (ih (follows.next step) running' ending)

/-- For all options and texts, keeping comments only adds them, failures included, unless a comment stands
between a condition or a bus suffix and the token that it depends on; then the runs differ. -/
theorem keepComments_adds_comments_iff (o : Options) (file : Option Text) (t : Text) :
    ((lexer { o with keepComments := true } file false).items { rest := t }).filter (!isCommentItem ·) =
        (lexer { o with keepComments := false } file false).items { rest := t } ↔
      cutOff false ((lexer { o with keepComments := false } file true).items { rest := t }) = false :=
  (Follows.start o t).agree rfl

/-- A comment between `.if` and its condition in the line behind, which closes or does not. -/
theorem keepComments_splits_condition :
    ((lexer { keepComments := true } none false).tokenize { rest := chars ".if $c\n+ (a)" }).toOption.map
        (List.filter (!isComment ·.kind)) ≠
      ((lexer { keepComments := false } none false).tokenize { rest := chars ".if $c\n+ (a)" }).toOption ∧
    ((lexer { keepComments := true } none false).tokenize { rest := chars ".if;\n+(" }).isOk = true ∧
    ((lexer { keepComments := false } none false).tokenize { rest := chars ".if;\n+(" }).isOk = false := by
  decide +kernel

end Netlist.Spice
