import Netlist.Proofs.Lexer.Extent

/-!
Tokenization that loses nothing. With suppressed tokens shown, each item takes up where the one before
it ends, so the tokens tile the text up to its end or to the first failure, and nothing comes behind.
-/
namespace Netlist.Lexer
variable {κ : Type} {lexer : Lexer κ} {s s' : Stream κ}

def after (lexer : Lexer κ) (s : Stream κ) : Nat → Stream κ
  | 0 => s
  | n + 1 => lexer.after (lexer.next s).2 n

/-- Whether the spans of tokens follow one another from a position to another one without gaps, none of
them empty and each as long as its raw text. -/
def Tiles : Nat → List (Token κ) → Nat → Prop
  | start, [], stop => start = stop
  | start, token :: rest, stop =>
    token.start = start ∧ token.start < token.stop ∧ token.stop = token.start + byteSize token.raw ∧
      Tiles token.stop rest stop

/-- How a tokenization ends at a position before the given text: with the token that ends the text, if
nothing is left of it, and otherwise with the failure of a step. -/
def Ends (lexer : Lexer κ) (position : Nat) (rest : Text) (ending : Item κ) : Prop :=
  (rest = [] ∧ ∃ token, ending = .token token ∧ token.kind = lexer.grammar.eof ∧ token.raw = [] ∧
      token.start = position ∧ token.stop = position) ∨
    (rest ≠ [] ∧ ∃ failure state, ending = .failure failure ∧
      lexer.step { rest, position, state } = .error failure)

structure Consumes (s : Stream κ) (token : Token κ) (s' : Stream κ) : Prop where
  rest : s.rest = token.raw ++ s'.rest
  raw : token.raw ≠ []
  start : token.start = s.position
  stop : token.stop = token.start + byteSize token.raw
  position : s'.position = token.stop
  finished : s'.finished = s.finished

theorem step_consumes (bounded : lexer.grammar.Bounded) {token : Token κ} (ok : lexer.step s = .ok (token, s')) :
    Consumes s token s' := by
  unfold step at ok
  split at ok
  · next c won =>
    obtain ⟨positive, inside⟩ := select_fits bounded won
    have within := Nat.le_trans inside
      (Window.view_prefix lexer.options.window lexer.options.continuation s.rest).length_le
    have raw : s.rest.take c.length ≠ [] := by
      rw [Ne, List.take_eq_nil_iff, not_or]
      refine ⟨Nat.ne_of_gt positive, fun empty => ?_⟩
      rw [empty, List.length_nil] at within
      omega
    cases ok
    exact ⟨(List.take_append_drop _ _).symm, raw, rfl, rfl, rfl, rfl⟩
  · cases ok

theorem after_finished (finished : s.finished = true) (n : Nat) :
    lexer.next (lexer.after s n) = (none, s) := by
  have stays : lexer.next s = (none, s) := by
    unfold next nextWithin
    rw [if_pos finished]
  induction n with
  | zero => exact stays
  | succ n ih =>
    unfold after
    rw [stays]
    exact ih

theorem items_cons {item : Item κ} {items : List (Item κ)} (first : lexer.next s = (some item, s'))
    (later : ∀ n, (lexer.next (lexer.after s' n)).1 = items[n]?) (n : Nat) :
    (lexer.next (lexer.after s n)).1 = (item :: items)[n]? := by
  cases n with
  | zero => exact congrArg Prod.fst first
  | succ n =>
    unfold after
    rw [first]
    exact later n

theorem items_last {item : Item κ} (last : lexer.next s = (some item, s')) (finished : s'.finished = true) (n : Nat) :
    (lexer.next (lexer.after s n)).1 = [item][n]? := by
  refine items_cons last (fun n => ?_) n
  rw [after_finished finished]
  rfl

theorem next_end (running : s.finished = false) (empty : s.rest = []) :
    lexer.next s = (some (.token (lexer.endToken s)), { s with finished := true }) := by
  unfold next nextWithin
  rw [if_neg (by simp [running]), if_pos (by simp [empty])]

theorem next_eq (shown : lexer.options.keepSuppressed = true) (running : s.finished = false) (more : s.rest ≠ []) :
    lexer.next s = match lexer.step s with
      | .error f => (some (.failure f), { s with finished := true, state := s.state.beforeMatch })
      | .ok (token, s') => (some (.token token), s') := by
  unfold next nextWithin
  rw [if_neg (by simp [running]), if_neg (by simpa using more)]
  rcases lexer.step s with f | ⟨token, s'⟩
  · rfl
  · dsimp only
    rw [shown, Bool.not_true, Bool.and_false]
    rfl

/-- What a tokenization yields from a stream on: the tokens that tile what they consume, one item that
ends it, and nothing behind that. -/
theorem next_tiles (bounded : lexer.grammar.Bounded) (shown : lexer.options.keepSuppressed = true)
    (running : s.finished = false) :
    ∃ tokens ending rest, (∀ n, (lexer.next (lexer.after s n)).1 = (tokens.map Item.token ++ [ending])[n]?) ∧
      s.rest = tokens.flatMap Token.raw ++ rest ∧ tokens.length ≤ s.rest.length ∧
      Tiles s.position tokens (s.position + byteSize (tokens.flatMap Token.raw)) ∧
      lexer.Ends (s.position + byteSize (tokens.flatMap Token.raw)) rest ending := by
  induction size : s.rest.length using Nat.strongRecOn generalizing s with
  | ind n shorter =>
    by_cases empty : s.rest = []
    · exact ⟨[], .token (lexer.endToken s), [], items_last (next_end running empty) rfl, by simp [empty], Nat.zero_le _, rfl,
        .inl ⟨rfl, _, rfl, rfl, rfl, rfl, rfl⟩⟩
    · have first := next_eq shown running empty
      cases stepped : lexer.step s with
      | error f =>
        rw [stepped] at first
        have same : s = { rest := s.rest, position := s.position, state := s.state } := by rw [← running]
        exact ⟨[], .failure f, s.rest, items_last first rfl, rfl, Nat.zero_le _, rfl,
          .inr ⟨empty, f, s.state, rfl, same ▸ stepped⟩⟩
      | ok found =>
        obtain ⟨token, s'⟩ := found
        rw [stepped] at first
        have consumes := step_consumes bounded stepped
        have length := congrArg List.length consumes.rest
        have nonempty := List.length_pos_iff.mpr consumes.raw
        rw [List.length_append] at length
        obtain ⟨tokens, ending, rest, items, text, count, tiles, ends⟩ :=
          shorter s'.rest.length (by omega) (consumes.finished.trans running) rfl
        have place : s'.position + byteSize (tokens.flatMap Token.raw) =
            s.position + byteSize ((token :: tokens).flatMap Token.raw) := by
          rw [consumes.position, consumes.stop, consumes.start, List.flatMap_cons, byteSize_append, Nat.add_assoc]
        rw [place] at tiles ends
        refine ⟨token :: tokens, ending, rest, items_cons first items, ?_, ?_, ⟨consumes.start, ?_, consumes.stop, ?_⟩, ends⟩
        · rw [consumes.rest, text, List.flatMap_cons, List.append_assoc]
        · rw [List.length_cons]
          omega
        · have := byteSize_pos consumes.raw
          rw [consumes.stop]
          omega
        · rw [← consumes.position]
          exact tiles

theorem itemsWithin_eq {items : List (Item κ)} (all : ∀ n, (lexer.next (lexer.after s n)).1 = items[n]?) {fuel : Nat}
    (room : items.length ≤ fuel) : lexer.itemsWithin fuel s = items := by
  induction items generalizing s fuel with
  | nil =>
    cases fuel with
    | zero => rfl
    | succ fuel =>
      have first : (lexer.next s).1 = none := all 0
      unfold itemsWithin
      rcases eq : lexer.next s with ⟨item | item, s'⟩
      · rfl
      · rw [eq] at first
        cases first
  | cons item items ih =>
    cases fuel with
    | zero => exact absurd room (Nat.not_succ_le_zero _)
    | succ fuel =>
      have first : (lexer.next s).1 = some item := all 0
      have later := ih (fun n => all (n + 1)) (Nat.le_of_succ_le_succ room)
      unfold itemsWithin
      rcases eq : lexer.next s with ⟨item' | item', s'⟩
      · rw [eq] at first
        cases first
      · rw [eq] at first later
        cases first
        exact congrArg (item :: ·) later

/-- Tokenization loses nothing. Where suppressed tokens are shown and procedures match no more than they
see, a text gives tokens that tile it from its start, up to its end or to where a step fails. The
token that ends the text or the failure comes behind them, and then nothing. -/
theorem tokenization_lossless (lexer : Lexer κ) (bounded : lexer.grammar.Bounded)
    (shown : lexer.options.keepSuppressed = true) (t : Text) (state : State κ) :
    ∃ tokens ending rest,
      (∀ n, (lexer.next (lexer.after { rest := t, state } n)).1 = (tokens.map Item.token ++ [ending])[n]?) ∧
      lexer.items { rest := t, state } = tokens.map Item.token ++ [ending] ∧ tokens.length ≤ t.length ∧
      t = tokens.flatMap Token.raw ++ rest ∧ Tiles 0 tokens (byteSize (tokens.flatMap Token.raw)) ∧
      lexer.Ends (byteSize (tokens.flatMap Token.raw)) rest ending := by
  obtain ⟨tokens, ending, rest, items, text, count, tiles, ends⟩ :=
    next_tiles (s := { rest := t, state }) bounded shown rfl
  rw [Nat.zero_add] at tiles ends
  refine ⟨tokens, ending, rest, items, itemsWithin_eq items ?_, count, text, tiles, ends⟩
  rw [List.length_append, List.length_map, List.length_singleton]
  exact Nat.succ_le_succ count

/-- A group in parentheses between blanks that are not shown otherwise, with a parenthesis behind it that
nothing matches. -/
theorem tokenization_lossless_groups :
    let group : Rule Nat := {
      name := chars "group", kind := 1
      recognizer := .procedure (.set (.single '(')) (Scan.balanced '(' ')').matcher }
    let blank : Rule Nat := {
      name := chars "blank", kind := 2, recognizer := .pattern (.set (.single ' '))
      action := fun s _ => (s, .skip) }
    let lexer : Lexer Nat := { grammar := ⟨[group, blank], 0⟩, options := { keepSuppressed := true } }
    ∃ tokens ending rest, lexer.items { rest := chars " (()) )" } = tokens.map Item.token ++ [ending] ∧
      chars " (()) )" = tokens.flatMap Token.raw ++ rest ∧ Tiles 0 tokens (byteSize (tokens.flatMap Token.raw)) := by
  intro group blank lexer
  have bounded : lexer.grammar.Bounded := by
    intro rule member trigger matcher same window s capture found
    simp only [lexer, List.mem_cons, List.not_mem_nil, or_false] at member
    rcases member with rfl | rfl
    · cases same
      exact Scan.matcher_le found
    · cases same
  obtain ⟨tokens, ending, rest, -, items, -, text, tiles, -⟩ :=
    tokenization_lossless lexer bounded rfl (chars " (()) )") {}
  exact ⟨tokens, ending, rest, items, text, tiles⟩

end Netlist.Lexer
