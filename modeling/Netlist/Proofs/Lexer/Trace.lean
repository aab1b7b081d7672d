import Netlist.Proofs.Lexer.Tiling
import Netlist.Proofs.Lexer.Winner

/-!
Runs of a lexer with all the tokens that they make, whether or not these are shown. What a lexer yields
is what it shows of a run that has come to its end.
-/
namespace Netlist.Lexer
variable {κ : Type} {lexer : Lexer κ} {s s' s'' : Stream κ} {token : Token κ} {tokens later : List (Token κ)}
  {item : Item κ}

theorem step_of_select {c : Candidate κ} (won : select lexer.grammar.rules (lexer.window s.rest) s.state.beforeMatch = .ok c) :
    lexer.step s = .ok (lexer.accept s c) := by
  rw [step, won]

theorem step_of_failure {message : Text}
    (lost : select lexer.grammar.rules (lexer.window s.rest) s.state.beforeMatch = .error message) :
    lexer.step s = .error ⟨message, s.state.line, s.state.column, lexer.file⟩ := by
  rw [step, lost]

theorem exists_step_of_any (lexer : Lexer κ) (s : Stream κ) (p : Token κ × Stream κ → Bool)
    (holds : (lexer.step s).toOption.any p = true) :
    ∃ token s', lexer.step s = .ok (token, s') ∧ p (token, s') = true := by
  cases step : lexer.step s with
  | error f =>
    rw [step] at holds
    cases holds
  | ok found =>
    rw [step] at holds
    exact ⟨found.1, found.2, rfl, holds⟩

theorem exists_token_of_any (lexer : Lexer κ) (s : Stream κ) (p : Token κ → Bool)
    (holds : (lexer.items s).any (fun | .token t => p t | .failure _ => false) = true) :
    ∃ token, .token token ∈ lexer.items s ∧ p token = true := by
  obtain ⟨item, member, here⟩ := List.any_eq_true.mp holds
  cases item with
  | token t => exact ⟨t, member, here⟩
  | failure f => cases here

/-- Every step leaves less of the text, whatever the procedures of the grammar match. -/
theorem step_shortens (nonempty : s.rest ≠ []) (step : lexer.step s = .ok (token, s')) :
    s'.rest.length < s.rest.length ∧ s'.finished = s.finished := by
  unfold Lexer.step at step
  split at step
  · next c won =>
    have positive := attempt_positive (select_wins won).found
    have more := List.length_pos_iff.mpr nonempty
    cases step
    refine ⟨?_, rfl⟩
    change (s.rest.drop c.length).length < s.rest.length
    rw [List.length_drop]
    omega
  · cases step

inductive Matched (lexer : Lexer κ) : Stream κ → List (Token κ) → Stream κ → Prop
  | none (s : Stream κ) : Matched lexer s [] s
  | more {s s' s'' : Stream κ} {token : Token κ} {tokens : List (Token κ)} (nonempty : s.rest ≠ [])
      (step : lexer.step s = .ok (token, s')) (later : Matched lexer s' tokens s'') : Matched lexer s (token :: tokens) s''

inductive Ending (lexer : Lexer κ) (s : Stream κ) : Item κ → Prop
  | text (empty : s.rest = []) : Ending lexer s (.token (lexer.endToken s))
  | failure {f : Failure} (nonempty : s.rest ≠ []) (step : lexer.step s = .error f) : Ending lexer s (.failure f)

def shows (lexer : Lexer κ) (token : Token κ) : Bool := !token.suppressed || lexer.options.keepSuppressed

theorem Matched.single (nonempty : s.rest ≠ []) (step : lexer.step s = .ok (token, s')) : Matched lexer s [token] s' :=
  .more nonempty step (.none s')

theorem Matched.trans (first : Matched lexer s tokens s') (second : Matched lexer s' later s'') :
    Matched lexer s (tokens ++ later) s'' := by
  induction first with
  | none s => exact second
  | more nonempty step _ ih => exact .more nonempty step (ih second)

theorem Matched.split (run : Matched lexer s (tokens ++ later) s'') :
    ∃ s', Matched lexer s tokens s' ∧ Matched lexer s' later s'' := by
  induction tokens generalizing s with
  | nil => exact ⟨s, .none s, run⟩
  | cons token tokens ih =>
    cases run with
    | more nonempty step run =>
      obtain ⟨s', first, second⟩ := ih run
      exact ⟨s', .more nonempty step first, second⟩

/-- The tokens of a run make up the text that it consumes. -/
theorem Matched.consumes (bounded : lexer.grammar.Bounded) (run : Matched lexer s tokens s') :
    s.rest = tokens.flatMap Token.raw ++ s'.rest ∧ s'.position = s.position + byteSize (tokens.flatMap Token.raw) ∧
      s'.finished = s.finished := by
  induction run with
  | none s => exact ⟨rfl, rfl, rfl⟩
  | more nonempty step _ ih =>
    have first := step_consumes bounded step
    obtain ⟨rest, position, finished⟩ := ih
    refine ⟨?_, ?_, finished.trans first.finished⟩
    · rw [first.rest, rest, List.flatMap_cons, List.append_assoc]
    · rw [position, first.position, first.stop, first.start, List.flatMap_cons, byteSize_append, Nat.add_assoc]

theorem Matched.length_le (run : Matched lexer s tokens s') : tokens.length ≤ s.rest.length := by
  induction run with
  | none s => exact Nat.zero_le _
  | more nonempty step _ ih =>
    have shorter := (step_shortens nonempty step).1
    rw [List.length_cons]
    omega

/-- From every stream a run leads to an end. -/
theorem exists_matched (lexer : Lexer κ) (s : Stream κ) :
    ∃ tokens s' item, Matched lexer s tokens s' ∧ Ending lexer s' item := by
  induction size : s.rest.length using Nat.strongRecOn generalizing s with
  | ind n shorter =>
    by_cases empty : s.rest = []
    · exact ⟨[], s, _, .none s, .text empty⟩
    · cases stepped : lexer.step s with
      | error f => exact ⟨[], s, _, .none s, .failure empty stepped⟩
      | ok found =>
        obtain ⟨token, s'⟩ := found
        have less := (step_shortens empty stepped).1
        obtain ⟨tokens, s'', item, run, ending⟩ := shorter s'.rest.length (by omega) s' rfl
        exact ⟨token :: tokens, s'', item, .more empty stepped run, ending⟩

theorem Matched.finished (run : Matched lexer s tokens s') : s'.finished = s.finished := by
  induction run with
  | none s => rfl
  | more nonempty step _ ih => exact ih.trans (step_shortens nonempty step).2

/-! ### What is shown of a run -/

/-- Fuel for every character that is left is enough. -/
theorem nextWithin_eq {fuel : Nat} (room : s.rest.length < fuel) : lexer.nextWithin fuel s = lexer.next s := by
  induction fuel using Nat.strongRecOn generalizing s with
  | ind fuel ih =>
    cases fuel with
    | zero => exact absurd room (Nat.not_lt_zero _)
    | succ fuel =>
      unfold next nextWithin
      split
      · rfl
      · split
        · rfl
        · next nonempty =>
          split
          · rfl
          · next token s' stepped =>
            have shorter := (step_shortens (by simpa using nonempty) stepped).1
            split
            · rw [ih fuel (Nat.lt_succ_self _) (by omega), ih s.rest.length (by omega) (by omega)]
            · rfl

theorem next_ok (running : s.finished = false) (nonempty : s.rest ≠ []) (step : lexer.step s = .ok (token, s')) :
    lexer.next s = if lexer.shows token then (some (.token token), s') else lexer.next s' := by
  have enough : lexer.nextWithin s.rest.length s' = lexer.next s' := nextWithin_eq (step_shortens nonempty step).1
  have hidden : lexer.shows token = !(token.suppressed && !lexer.options.keepSuppressed) := by simp [shows]
  unfold next nextWithin
  rw [if_neg (by simp [running]), if_neg (by simpa using nonempty), step, hidden]
  dsimp only
  rw [enough]
  cases token.suppressed && !lexer.options.keepSuppressed <;> rfl

theorem next_failure {f : Failure} (running : s.finished = false) (nonempty : s.rest ≠ []) (step : lexer.step s = .error f) :
    lexer.next s = (some (.failure f), { s with finished := true, state := s.state.beforeMatch }) := by
  unfold next nextWithin
  rw [if_neg (by simp [running]), if_neg (by simpa using nonempty), step]

structure Ended (s s' : Stream κ) : Prop where
  rest : s'.rest = s.rest
  position : s'.position = s.position
  finished : s'.finished = true
  state : s'.state = s.state ∨ s'.state = s.state.beforeMatch

theorem Ending.next (running : s.finished = false) (ending : Ending lexer s item) :
    ∃ s', lexer.next s = (some item, s') ∧ Ended s s' := by
  cases ending with
  | text empty => exact ⟨_, next_end running empty, ⟨rfl, rfl, rfl, .inl rfl⟩⟩
  | failure nonempty step => exact ⟨_, next_failure running nonempty step, ⟨rfl, rfl, rfl, .inr rfl⟩⟩

theorem Matched.next_after (running : s.finished = false) (run : Matched lexer s tokens s') (ending : Ending lexer s' item)
    (n : Nat) :
    (lexer.next (lexer.after s n)).1 = ((tokens.filter lexer.shows).map Item.token ++ [item])[n]? := by
  induction run generalizing n with
  | none s =>
    obtain ⟨s', last, ended⟩ := ending.next running
    exact items_last last ended.finished n
  | more nonempty step _ ih =>
    have first := next_ok running nonempty step
    have behind := ih ((step_shortens nonempty step).2.trans running) ending
    split at first
    · next shown =>
      rw [List.filter_cons_of_pos shown, List.map_cons, List.cons_append]
      exact items_cons first behind n
    · next hidden =>
      rw [List.filter_cons_of_neg hidden, ← behind n]
      cases n with
      | zero => exact congrArg Prod.fst first
      | succ n =>
        unfold after
        rw [first]

/-- What a lexer yields: the tokens of a run that are shown, and how it ends. -/
theorem Matched.items_eq (running : s.finished = false)
    (run : Matched lexer s tokens s') (ending : Ending lexer s' item) :
    lexer.items s = (tokens.filter lexer.shows).map Item.token ++ [item] := by
  refine itemsWithin_eq (run.next_after running ending) ?_
  have most := List.length_filter_le lexer.shows tokens
  have length := run.length_le
  rw [List.length_append, List.length_map, List.length_singleton]
  omega

/-- A tokenization that succeeds has reached the end of the text. -/
theorem matched_of_tokenize (running : s.finished = false)
    (run : Matched lexer s tokens s') (ending : Ending lexer s' item) {all : List (Token κ)} (ok : lexer.tokenize s = .ok all) :
    s'.rest = [] ∧ all = tokens.filter lexer.shows ++ [lexer.endToken s'] := by
  have split_token (ts : List (Token κ)) (token : Token κ) :
      split (ts.map Item.token ++ [.token token]) = (ts ++ [token], none) := by
    induction ts with
    | nil => rfl
    | cons t ts ih => simp [split, ih]
  have split_failure (ts : List (Token κ)) (f : Failure) : split (ts.map Item.token ++ [.failure f]) = (ts, some f) := by
    induction ts with
    | nil => rfl
    | cons t ts ih => simp [split, ih]
  unfold tokenize at ok
  rw [run.items_eq running ending] at ok
  cases ending with
  | text empty =>
    rw [split_token] at ok
    exact ⟨empty, (Except.ok.inj ok).symm⟩
  | failure nonempty step =>
    rw [split_failure] at ok
    cases ok

theorem Matched.items_append (running : s.finished = false)
    (run : Matched lexer s tokens s') : lexer.items s = (tokens.filter lexer.shows).map Item.token ++ lexer.items s' := by
  obtain ⟨later, s'', item, run', ending⟩ := exists_matched lexer s'
  have behind := run'.items_eq (run.finished.trans running) ending
  rw [(run.trans run').items_eq running ending, behind, List.filter_append, List.map_append, List.append_assoc]

theorem items_ok (running : s.finished = false) (nonempty : s.rest ≠ [])
    (step : lexer.step s = .ok (token, s')) :
    lexer.items s = if lexer.shows token then .token token :: lexer.items s' else lexer.items s' := by
  rw [(Matched.single nonempty step).items_append running]
  cases shown : lexer.shows token <;> simp [shown]

theorem Ending.items (running : s.finished = false) (ending : Ending lexer s item) :
    lexer.items s = [item] :=
  (Matched.none s).items_eq running ending

theorem after_of_finished (finished : s.finished = true) (n : Nat) : lexer.after s n = s := by
  induction n with
  | zero => rfl
  | succ n ih =>
    unfold after
    rw [show lexer.next s = (none, s) from after_finished finished 0, ih]

/-- Behind all its items a lexer stays where the run has ended. -/
theorem Matched.after_items (running : s.finished = false)
    (run : Matched lexer s tokens s') (ending : Ending lexer s' item) :
    Ended s' (lexer.after s (lexer.items s).length) := by
  rw [run.items_eq running ending, List.length_append, List.length_map, List.length_singleton]
  induction run with
  | none s =>
    obtain ⟨s', last, ended⟩ := ending.next running
    simpa [after, last] using ended
  | more nonempty step _ ih =>
    have behind := ih ((step_shortens nonempty step).2.trans running) ending
    have first := next_ok running nonempty step
    split at first
    · next shown =>
      rw [List.filter_cons_of_pos shown, List.length_cons, after, first]
      exact behind
    · next hidden =>
      rw [List.filter_cons_of_neg hidden, after, first]
      exact behind

theorem exists_next (running : s.finished = false) :
    ∃ tokens s', Matched lexer s tokens s' ∧ ((lexer.next s).2 = s' ∨ Ended s' (lexer.next s).2) := by
  obtain ⟨tokens, s', item, run, ending⟩ := exists_matched lexer s
  induction run with
  | none s =>
    obtain ⟨s', last, ended⟩ := ending.next running
    rw [last]
    exact ⟨[], s, .none s, .inr ended⟩
  | more nonempty step _ ih =>
    rw [next_ok running nonempty step]
    split
    · exact ⟨_, _, .single nonempty step, .inl rfl⟩
    · obtain ⟨tokens, s', run, reached⟩ := ih ((step_shortens nonempty step).2.trans running) ending
      exact ⟨_, s', .more nonempty step run, reached⟩

/-- Behind every item a lexer is where some run leads, or has reported the end there. -/
theorem exists_matched_after (running : s.finished = false) (n : Nat) :
    ∃ tokens s', Matched lexer s tokens s' ∧ (lexer.after s n = s' ∨ Ended s' (lexer.after s n)) := by
  induction n generalizing s with
  | zero => exact ⟨[], s, .none s, .inl rfl⟩
  | succ n ih =>
    obtain ⟨tokens, s', run, reached⟩ := exists_next running
    unfold after
    rcases reached with same | ended
    · obtain ⟨later, s'', run', reached⟩ := ih (run.finished.trans running)
      rw [same]
      exact ⟨tokens ++ later, s'', run.trans run', reached⟩
    · rw [after_of_finished ended.finished]
      exact ⟨tokens, s', run, .inr ended⟩

end Netlist.Lexer
