import Netlist.Proofs.Lexer.Place
import Netlist.Proofs.Lexer.Trace
import Netlist.Proofs.Lexer.Winner
import Netlist.Proofs.Line.Slice

/-!
Tokenization line by line. Each logical line is read as a text of its own, from the state that the line
before it leaves. This gives what the whole text gives as long as rules see one logical line at most and
no action reads what follows a match.
-/
namespace Netlist.Lexer
variable {κ : Type} {lexer : Lexer κ} {s s' S : Stream κ} {token : Token κ} {tokens : List (Token κ)} {offset : Nat}
  {right : Text}

def Token.shift (offset : Nat) (token : Token κ) : Token κ :=
  { token with start := offset + token.start, stop := offset + token.stop }

def Item.shift (offset : Nat) : Item κ → Item κ
  | .token token => .token (token.shift offset)
  | .failure f => .failure f

def Item.isFailure : Item κ → Bool
  | .token _ => false
  | .failure _ => true

/-- What logical lines yield one at a time. The token that ends a line's text is left out unless the line
is the last one; a failure ends it all. -/
def byLine (lexer : Lexer κ) (t : Text) : State κ → List LogicalLine → List (Item κ)
  | _, [] => []
  | state, line :: lines =>
    let s : Stream κ := { rest := line.raw t, state }
    let found := (lexer.items s).map (Item.shift line.start)
    if lines.isEmpty || found.any Item.isFailure then found
    else found.dropLast ++ byLine lexer t (lexer.after s (lexer.items s).length).state lines

def State.Alike (s s' : State κ) : Prop := s.beforeMatch = s'.beforeMatch

theorem State.advance_beforeMatch (s : State κ) (w : Text) : (s.advance w).beforeMatch = s.beforeMatch.advance w := by
  simp only [advance_eq, beforeMatch]

theorem State.Alike.advance {s s' : State κ} (alike : s.Alike s') (w : Text) : (s.advance w).Alike (s'.advance w) := by
  rw [Alike, advance_beforeMatch, advance_beforeMatch, alike]

theorem State.Alike.emitted {s s' : State κ} (alike : s.Alike s') (previous : Option κ) :
    State.Alike { s with previous } { s' with previous } := by
  have same : s.beforeMatch = s'.beforeMatch := alike
  have updated := congrArg (fun s : State κ => { s with previous }) same
  exact updated

theorem State.Alike.place {s s' : State κ} (alike : s.Alike s') : s.line = s'.line ∧ s.column = s'.column := by
  have same : s.beforeMatch = s'.beforeMatch := alike
  have line := congrArg State.line same
  have column := congrArg State.column same
  exact ⟨line, column⟩

def Grammar.Blind (g : Grammar κ) : Prop :=
  ∀ rule ∈ g.rules, ∀ s s' : State κ, s.Alike s' → ∀ lexeme,
    (rule.action s lexeme).1.Alike (rule.action s' lexeme).1 ∧ (rule.action s lexeme).2 = (rule.action s' lexeme).2

/-- A stream over a text and one over a longer text, behind a number of bytes more, in which rules see
nothing more. -/
structure Within (lexer : Lexer κ) (offset : Nat) (right : Text) (s S : Stream κ) : Prop where
  rest : S.rest = s.rest ++ right
  position : S.position = offset + s.position
  state : S.state.Alike s.state
  seam : right ≠ [] → s.rest ≠ [] → lexer.options.continuation.Seam s.rest right

theorem Within.window_eq (bounded : lexer.options.window ≠ .full) (within : Within lexer offset right s S) (more : s.rest ≠ []) :
    lexer.window S.rest = lexer.window s.rest := by
  rw [within.rest]
  by_cases last : right = []
  · rw [last, List.append_nil]
  · exact Window.view_append bounded (within.seam last more)

theorem Within.step_failure {f : Failure} (bounded : lexer.options.window ≠ .full) (within : Within lexer offset right s S)
    (more : s.rest ≠ []) (step : lexer.step s = .error f) : lexer.step S = .error f := by
  have state : S.state.beforeMatch = s.state.beforeMatch := within.state
  obtain ⟨line, column⟩ := within.state.place
  unfold Lexer.step at step ⊢
  rw [within.window_eq bounded more, state, line, column]
  split at step
  · cases step
  · exact step

theorem Within.step_ok (fits : lexer.grammar.Bounded) (blind : lexer.grammar.Blind) (bounded : lexer.options.window ≠ .full)
    (within : Within lexer offset right s S) (more : s.rest ≠ []) (step : lexer.step s = .ok (token, s')) :
    ∃ S', lexer.step S = .ok (token.shift offset, S') ∧ Within lexer offset right s' S' := by
  have consumes := step_consumes fits step
  have state : S.state.beforeMatch = s.state.beforeMatch := within.state
  unfold Lexer.step at step ⊢
  rw [within.window_eq bounded more, state]
  cases won : select lexer.grammar.rules (lexer.window s.rest) s.state.beforeMatch with
  | error message =>
    rw [won] at step
    cases step
  | ok c =>
    rw [won] at step
    obtain ⟨_, inside⟩ := select_fits fits won
    have length : c.length ≤ s.rest.length := by
      have view := (Window.view_prefix lexer.options.window lexer.options.continuation s.rest).length_le
      exact Nat.le_trans inside view
    have raw : S.rest.take c.length = s.rest.take c.length := by
      rw [within.rest, List.take_append_of_le_length length]
    have acted := blind c.rule (select_wins won).mem (S.state.beforeMatch.atMatch S.rest c.length)
      (s.state.beforeMatch.atMatch s.rest c.length) state (c.lexeme.getD (s.rest.take c.length))
    obtain ⟨alike, emit⟩ := acted
    obtain ⟨line, column⟩ := alike.place
    obtain ⟨rfl, rfl⟩ := Prod.mk.inj (Except.ok.inj step)
    have seam : right ≠ [] → s.rest.drop c.length ≠ [] → lexer.options.continuation.Seam (s.rest.drop c.length) right := by
      intro following behind
      have seam := within.seam following more
      rw [← List.take_append_drop c.length s.rest] at seam
      exact seam.suffix behind
    refine ⟨_, congrArg Except.ok (Prod.ext ?_ rfl), ⟨?_, ?_, ?_, seam⟩⟩
    · simp only [accept, Token.shift, raw, emit, line, column, within.position, Nat.add_assoc]
    · simp only [accept, within.rest, List.drop_append_of_le_length length]
    · simp only [accept, raw, within.position, Nat.add_assoc]
    · simp only [accept, raw, emit]
      split
      · exact (alike.advance _).emitted _
      · exact alike.advance _

theorem Matched.within (fits : lexer.grammar.Bounded) (blind : lexer.grammar.Blind) (bounded : lexer.options.window ≠ .full)
    (run : Matched lexer s tokens s') (within : Within lexer offset right s S) :
    ∃ S', Matched lexer S (tokens.map (Token.shift offset)) S' ∧ Within lexer offset right s' S' := by
  induction run generalizing S with
  | none s => exact ⟨S, .none S, within⟩
  | more more step _ ih =>
    obtain ⟨S', step', within'⟩ := within.step_ok fits blind bounded more step
    obtain ⟨S'', later, reached⟩ := ih within'
    have nonempty : S.rest ≠ [] := by simp [within.rest, more]
    exact ⟨S'', .more nonempty step' later, reached⟩

/-- The end of the shorter text is that of the longer one, if it is a failure or nothing follows. -/
theorem Within.ending {item : Item κ} (bounded : lexer.options.window ≠ .full) (within : Within lexer offset right s S)
    (ending : Ending lexer s item) (last : right = [] ∨ item.isFailure = true) : Ending lexer S (item.shift offset) := by
  cases ending with
  | failure nonempty step =>
    have nonempty' : S.rest ≠ [] := by simp [within.rest, nonempty]
    exact .failure nonempty' (within.step_failure bounded nonempty step)
  | text empty =>
    have whole : right = [] := last.resolve_right nofun
    have nothing : S.rest = [] := by rw [within.rest, empty, whole, List.append_nil]
    obtain ⟨line, column⟩ := within.state.place
    have same : (lexer.endToken s).shift offset = lexer.endToken S := by
      simp only [endToken, Token.shift, within.position, line, column]
    rw [Item.shift, same]
    exact .text nothing

section Lift

variable {S' : Stream κ} {item : Item κ} (running : s.finished = false)
  (run : Matched lexer s tokens s') (ending : Ending lexer s' item)
include running run ending

/-- What is yielded in the shorter text, at its place in the longer one. -/
theorem Matched.map_items (offset : Nat) :
    (lexer.items s).map (Item.shift offset) =
      ((tokens.map (Token.shift offset)).filter lexer.shows).map Item.token ++ [item.shift offset] := by
  have same : lexer.shows ∘ Token.shift offset = lexer.shows := rfl
  rw [run.items_eq running ending, List.map_append, List.map_map, List.filter_map, same, List.map_map]
  rfl

theorem Matched.any_isFailure (offset : Nat) :
    ((lexer.items s).map (Item.shift offset)).any Item.isFailure = item.isFailure := by
  rw [run.map_items running ending]
  cases item <;> simp [Item.isFailure, Item.shift]

theorem Matched.items_lift (running' : S.finished = false) (lifted : Matched lexer S (tokens.map (Token.shift offset)) S')
    (ended : Ending lexer S' (item.shift offset)) : (lexer.items s).map (Item.shift offset) = lexer.items S := by
  rw [run.map_items running ending, lifted.items_eq running' ended]

theorem Matched.items_lift_append (running' : S.finished = false)
    (lifted : Matched lexer S (tokens.map (Token.shift offset)) S') :
    ((lexer.items s).map (Item.shift offset)).dropLast ++ lexer.items S' = lexer.items S := by
  rw [run.map_items running ending, List.dropLast_concat, lifted.items_append running']

theorem Matched.after_alike (alike : S'.state.Alike s'.state) :
    S'.state.Alike (lexer.after s (lexer.items s).length).state := by
  have here : S'.state.beforeMatch = s'.state.beforeMatch := alike
  rcases (run.after_items running ending).state with eq | eq <;> rw [eq] <;> exact here

end Lift

theorem byLine_describeRuns (fits : lexer.grammar.Bounded) (blind : lexer.grammar.Blind) (bounded : lexer.options.window ≠ .full)
    {reader : LogicalReader} (same : reader.continuation = lexer.options.continuation) {t skipped : Text}
    {runs : List (List PhysicalLine)} {state : State κ} (text : t = skipped ++ S.rest) (more : S.rest ≠ [])
    (grouped : lexer.options.continuation.group (physicalLines S.rest) = runs) (place : reader.position = byteSize skipped)
    (position : S.position = byteSize skipped) (running : S.finished = false) (alike : S.state.Alike state) :
    lexer.byLine t state (describeRuns reader runs) = lexer.items S := by
  induction runs generalizing S reader skipped state with
  | nil => exact absurd grouped (Continuation.group_ne_nil _ (mt physicalLines_eq_nil.mp more))
  | cons run runs ih =>
    obtain ⟨pieces, _, _, others, seam⟩ := Continuation.group_pieces grouped
    have raw : (reader.describe run).raw t = Continuation.source run := LogicalReader.raw_describe (by rw [text, pieces]) place
    have start : (reader.describe run).start = reader.position := rfl
    obtain ⟨tokens, s', item, first, ending⟩ := exists_matched lexer { rest := Continuation.source run, state }
    have within : Within lexer reader.position (Continuation.source runs.flatten) { rest := Continuation.source run, state } S :=
      ⟨pieces, by rw [position, place, Nat.add_zero], alike, fun following _ => seam following⟩
    obtain ⟨S', lifted, reached⟩ := first.within fits blind bounded within
    have failing := first.any_isFailure rfl ending reader.position
    rw [describeRuns, byLine]
    simp only [raw, start]
    by_cases last : runs = [] ∨ item.isFailure = true
    · have ended := reached.ending bounded ending (last.imp_left fun whole => by rw [whole]; rfl)
      have stops : (describeRuns { reader with position := (reader.describe run).stop, line := reader.line + run.length }
          runs).isEmpty = true ∨ item.isFailure = true := last.imp_left fun whole => by rw [whole]; rfl
      rw [failing, if_pos (by simpa using stops)]
      exact first.items_lift rfl ending running lifted ended
    · obtain ⟨others', unfailing⟩ := not_or.mp last
      cases ending with
      | failure nonempty step => exact absurd rfl unfailing
      | text empty =>
        have following : S'.rest = Continuation.source runs.flatten := by rw [reached.rest, empty, List.nil_append]
        have more' : S'.rest ≠ [] := by
          intro nothing
          rw [← following, nothing] at others
          exact others' others.symm
        have consumed := congrArg byteSize (first.consumes fits).1
        have position' : S'.position = byteSize (skipped ++ Continuation.source run) := by
          rw [reached.position, (first.consumes fits).2.1, place, byteSize_append, consumed, empty, List.append_nil,
            Nat.zero_add]
        have text' : t = (skipped ++ Continuation.source run) ++ S'.rest := by
          rw [following, List.append_assoc, ← pieces, text]
        have place' : (reader.describe run).stop = byteSize (skipped ++ Continuation.source run) := by
          simp [LogicalReader.describe, place]
        let reader' := { reader with position := (reader.describe run).stop, line := reader.line + run.length }
        have same' : reader'.continuation = lexer.options.continuation := same
        have alike' := first.after_alike rfl (.text empty) reached.state
        have behind := ih same' text' more' (by rw [following, others]) place' position'
          ((lifted.consumes fits).2.2.trans running) alike'
        obtain ⟨next, runs, rfl⟩ := List.exists_cons_of_ne_nil others'
        rw [failing, if_neg (by simp [describeRuns, Item.isFailure]), behind]
        exact first.items_lift_append rfl (.text empty) running lifted

/-- Logical lines can be tokenized one at a time. -/
theorem byLine_logicalLines (fits : lexer.grammar.Bounded) (blind : lexer.grammar.Blind) (bounded : lexer.options.window ≠ .full)
    {t : Text} (more : t ≠ []) (state : State κ) :
    lexer.byLine t state (logicalLines lexer.options.continuation t) = lexer.items { rest := t, state } :=
  byLine_describeRuns fits blind bounded rfl (List.nil_append t).symm more rfl rfl rfl rfl rfl

end Netlist.Lexer
