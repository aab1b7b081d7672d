import Netlist.Proofs.Lexer.Trace

/-!
Rule selection as it is described. Candidates are the rules that apply and match something. A candidate on
top comes before a failure, a failure before all other candidates, and of several candidates the longest
comes first, among equals that of the rule declared first.
-/
namespace Netlist.Lexer
variable {κ : Type} {rule : Rule κ} {rules : List (Rule κ)} {window : Text} {s : State κ} {c d : Candidate κ} {i j : Nat}
  {message : Text}

/-- How a rule that applies matches the beginning of a window: by its pattern, which is tied to the start, or
by its procedure once the trigger matches there. Nothing is no match. -/
inductive Rule.Matches (rule : Rule κ) (window : Text) (s : State κ) : Candidate κ → Prop
  | pattern {p : Pattern} {length : Nat} (applies : rule.applies s = true) (recognizer : rule.recognizer = .pattern p)
      (found : p.findEnd? window = some length) (positive : 0 < length) : Matches rule window s ⟨rule, length, none⟩
  | procedure {trigger : Pattern} {matcher : Matcher κ} {capture : Capture} (applies : rule.applies s = true)
      (recognizer : rule.recognizer = .procedure trigger matcher) (triggered : (trigger.findEnd? window).isSome = true)
      (captured : matcher window s = .ok (some capture)) (positive : 0 < capture.length) :
      Matches rule window s ⟨rule, capture.length, some capture.lexeme⟩

inductive Rule.Fails (rule : Rule κ) (window : Text) (s : State κ) : Text → Prop
  | procedure {trigger : Pattern} {matcher : Matcher κ} {message : Text} (applies : rule.applies s = true)
      (recognizer : rule.recognizer = .procedure trigger matcher) (triggered : (trigger.findEnd? window).isSome = true)
      (failed : matcher window s = .error message) : Fails rule window s message

/-! ### Attempts -/

theorem attempt_pattern {p : Pattern} (applies : rule.applies s = true) (recognizer : rule.recognizer = .pattern p) :
    rule.attempt window s = .ok (((p.findEnd? window).filter (0 < ·)).map fun length => ⟨rule, length, none⟩) := by
  unfold Rule.attempt
  rw [if_neg (by simp [applies]), recognizer]

theorem attempt_procedure {trigger : Pattern} {matcher : Matcher κ} (applies : rule.applies s = true)
    (recognizer : rule.recognizer = .procedure trigger matcher) (triggered : (trigger.findEnd? window).isSome = true) :
    rule.attempt window s = (matcher window s).map fun found =>
      (found.filter (0 < ·.length)).map fun capture => ⟨rule, capture.length, some capture.lexeme⟩ := by
  unfold Rule.attempt
  rw [if_neg (by simp [applies]), recognizer]
  dsimp only
  rw [if_neg (by simpa [← Option.isSome_iff_ne_none] using triggered)]
  cases matcher window s <;> rfl

/-- A rule whose attempt is not without result applies, and its trigger matches if it has one. -/
theorem attempt_cases {result : Except Text (Option (Candidate κ))} (attempted : rule.attempt window s = result)
    (some_result : result ≠ .ok none) : rule.applies s = true ∧
    ((∃ p, rule.recognizer = .pattern p) ∨
      ∃ trigger matcher, rule.recognizer = .procedure trigger matcher ∧ (trigger.findEnd? window).isSome = true) := by
  subst attempted
  unfold Rule.attempt at some_result
  split at some_result
  · exact absurd rfl some_result
  · next applies =>
    refine ⟨by simpa using applies, ?_⟩
    split at some_result
    · next p recognizer => exact .inl ⟨p, recognizer⟩
    · next trigger matcher recognizer =>
      split at some_result
      · exact absurd rfl some_result
      · next triggered => exact .inr ⟨trigger, matcher, recognizer, by simpa [Option.isSome_iff_ne_none] using triggered⟩

theorem attempt_eq_found : rule.attempt window s = .ok (some c) ↔ rule.Matches window s c := by
  constructor
  · intro attempted
    obtain ⟨applies, ⟨p, recognizer⟩ | ⟨trigger, matcher, recognizer, triggered⟩⟩ :=
      attempt_cases attempted nofun
    · rw [attempt_pattern applies recognizer] at attempted
      obtain ⟨length, found, rfl⟩ := Option.map_eq_some_iff.mp (Except.ok.inj attempted)
      obtain ⟨found, positive⟩ := Option.filter_eq_some_iff.mp found
      exact .pattern applies recognizer found (of_decide_eq_true positive)
    · rw [attempt_procedure applies recognizer triggered] at attempted
      cases captured : matcher window s with
      | error message =>
        rw [captured] at attempted
        cases attempted
      | ok found =>
        rw [captured] at attempted
        obtain ⟨capture, found, rfl⟩ := Option.map_eq_some_iff.mp (Except.ok.inj attempted)
        obtain ⟨rfl, positive⟩ := Option.filter_eq_some_iff.mp found
        exact .procedure applies recognizer triggered captured (of_decide_eq_true positive)
  · rintro (⟨applies, recognizer, found, positive⟩ | ⟨applies, recognizer, triggered, captured, positive⟩)
    · simp [attempt_pattern applies recognizer, found, positive]
    · rw [attempt_procedure applies recognizer triggered, captured]
      refine congrArg Except.ok (Option.map_eq_some_iff.mpr ⟨_, ?_, rfl⟩)
      exact Option.filter_eq_some_iff.mpr ⟨rfl, decide_eq_true positive⟩

theorem attempt_eq_error : rule.attempt window s = .error message ↔ rule.Fails window s message := by
  constructor
  · intro attempted
    obtain ⟨applies, ⟨p, recognizer⟩ | ⟨trigger, matcher, recognizer, triggered⟩⟩ :=
      attempt_cases attempted nofun
    · rw [attempt_pattern applies recognizer] at attempted
      cases attempted
    · rw [attempt_procedure applies recognizer triggered] at attempted
      cases failed : matcher window s with
      | error reason =>
        rw [failed] at attempted
        cases attempted
        exact .procedure applies recognizer triggered failed
      | ok found =>
        rw [failed] at attempted
        cases attempted
  · rintro ⟨applies, recognizer, triggered, failed⟩
    rw [attempt_procedure applies recognizer triggered, failed]
    rfl

/-! ### Candidates by the place of their rule -/

def Offers (rules : List (Rule κ)) (window : Text) (s : State κ) (i : Nat) (c : Candidate κ) : Prop :=
  ∃ rule, rules[i]? = some rule ∧ rule.Matches window s c

structure Leads (offers : Nat → Candidate κ → Prop) (i : Nat) (c : Candidate κ) : Prop where
  offered : offers i c
  longest : ∀ j d, offers j d → d.length ≤ c.length
  earliest : ∀ j d, offers j d → d.length = c.length → i ≤ j

/-- What is selected among rules, as it is described. -/
inductive Selection (rules : List (Rule κ)) (window : Text) (s : State κ) : Except Text (Candidate κ) → Prop
  | top {i : Nat} {c : Candidate κ}
      (leads : Leads (fun j d => Offers rules window s j d ∧ d.rule.top = true) i c) : Selection rules window s (.ok c)
  | failure {i : Nat} {rule : Rule κ} {message : Text} (below : ∀ j d, Offers rules window s j d → d.rule.top = false)
      (here : rules[i]? = some rule) (fails : rule.Fails window s message)
      (first : ∀ j < i, ∀ earlier, rules[j]? = some earlier → ∀ other, ¬ earlier.Fails window s other) :
      Selection rules window s (.error message)
  | longest {i : Nat} {c : Candidate κ} (below : ∀ j d, Offers rules window s j d → d.rule.top = false)
      (silent : ∀ rule ∈ rules, ∀ message, ¬ rule.Fails window s message) (leads : Leads (Offers rules window s) i c) :
      Selection rules window s (.ok c)
  | unmatched (absent : ∀ j d, ¬ Offers rules window s j d)
      (silent : ∀ rule ∈ rules, ∀ message, ¬ rule.Fails window s message) :
      Selection rules window s (.error (noMatchMessage window))

theorem Offers.attempt (offered : Offers rules window s i c) :
    rules[i]? = some c.rule ∧ c.rule.attempt window s = .ok (some c) := by
  obtain ⟨rule, here, found⟩ := offered
  have attempted := attempt_eq_found.mpr found
  rw [attempt_rule attempted]
  exact ⟨here, attempted⟩

theorem offers_of_attempt (here : rules[i]? = some rule) (attempted : rule.attempt window s = .ok (some c)) :
    Offers rules window s i c := ⟨rule, here, attempt_eq_found.mp attempted⟩

theorem exists_offers (member : rule ∈ rules) (attempted : rule.attempt window s = .ok (some c)) :
    ∃ i, Offers rules window s i c := by
  obtain ⟨i, here⟩ := List.getElem?_of_mem member
  exact ⟨i, offers_of_attempt here attempted⟩

theorem split_at (here : rules[i]? = some rule) : rules = rules.take i ++ rule :: rules.drop (i + 1) := by
  obtain ⟨inside, same⟩ := List.getElem?_eq_some_iff.mp here
  rw [← same, List.getElem_cons_drop, List.take_append_drop]

theorem exists_before (member : rule ∈ rules.take i) : ∃ j < i, rules[j]? = some rule := by
  obtain ⟨j, there⟩ := List.getElem?_of_mem member
  obtain ⟨inside, _⟩ := List.getElem?_eq_some_iff.mp there
  have less : j < i := Nat.lt_of_lt_of_le inside (List.length_take_le i rules)
  exact ⟨j, less, by rwa [List.getElem?_take_of_lt less] at there⟩

theorem beats_iff : c.beats d = true ↔
    (c.rule.top = true ∧ d.rule.top = false) ∨ (c.rule.top = d.rule.top ∧ d.length < c.length) := by
  simp [Candidate.beats]

/-- The match that wins leads those of its rank, and no other one is of a higher rank. -/
theorem wins_iff : c.Wins rules window s ↔
    (∃ i, Leads (fun j d => Offers rules window s j d ∧ d.rule.top = c.rule.top) i c) ∧
      ∀ j d, Offers rules window s j d → d.rule.top = true → c.rule.top = true := by
  constructor
  · intro wins
    obtain ⟨earlier, later, split, before, behind⟩ := wins.split
    have here : rules[earlier.length]? = some c.rule := by simp [split]
    have ahead {j : Nat} {d : Candidate κ} (offered : Offers rules window s j d) (less : j < earlier.length) :
        c.beats d = true := by
      obtain ⟨there, attempted⟩ := offered.attempt
      rw [split, List.getElem?_append_left less] at there
      exact before d.rule (List.mem_of_getElem? there) d attempted
    have held {j : Nat} {d : Candidate κ} (offered : Offers rules window s j d) : d.beats c = false :=
      wins.not_beaten (List.mem_of_getElem? offered.attempt.1) offered.attempt.2
    refine ⟨⟨earlier.length, ⟨offers_of_attempt here wins.found, rfl⟩, ?_, ?_⟩, fun j d offered top => ?_⟩
    · rintro j d ⟨offered, rank⟩
      refine Nat.le_of_not_lt fun longer => ?_
      refine Bool.eq_false_iff.mp (held offered) (beats_iff.mpr (.inr ⟨rank, longer⟩))
    · rintro j d ⟨offered, rank⟩ same
      refine Nat.le_of_not_lt fun less => ?_
      rcases beats_iff.mp (ahead offered less) with ⟨top, below⟩ | ⟨_, shorter⟩
      · rw [rank, top] at below
        cases below
      · omega
    · exact Candidate.top_of_not_beaten (held offered) top
  · rintro ⟨⟨i, leads⟩, ranked⟩
    obtain ⟨here, attempted⟩ := leads.offered.1.attempt
    refine ⟨attempted, rules.take i, rules.drop (i + 1), split_at here, fun rule member d found => ?_,
      fun rule member d found => ?_⟩
    · -- A rule declared before loses in rank or, within the rank, in length: as long it would have come first.
      obtain ⟨j, less, there⟩ := exists_before member
      have offered := offers_of_attempt there found
      refine beats_iff.mpr ?_
      cases top : d.rule.top with
      | true =>
        have rank : d.rule.top = c.rule.top := top.trans (ranked j d offered top).symm
        refine .inr ⟨rank.symm.trans top, Nat.lt_of_le_of_ne (leads.longest j d ⟨offered, rank⟩) fun equal => ?_⟩
        have := leads.earliest j d ⟨offered, rank⟩ equal
        omega
      | false =>
        cases own : c.rule.top with
        | true => exact .inl ⟨rfl, rfl⟩
        | false =>
          have rank : d.rule.top = c.rule.top := top.trans own.symm
          refine .inr ⟨rfl, Nat.lt_of_le_of_ne (leads.longest j d ⟨offered, rank⟩) fun equal => ?_⟩
          have := leads.earliest j d ⟨offered, rank⟩ equal
          omega
    · obtain ⟨j, offered⟩ := exists_offers (List.mem_of_mem_drop member) found
      rw [Bool.eq_false_iff]
      intro beaten
      rcases beats_iff.mp beaten with ⟨top, below⟩ | ⟨rank, longer⟩
      · rw [ranked j d offered top] at below
        cases below
      · have := leads.longest j d ⟨offered, rank⟩
        omega

/-! ### Selection -/

theorem silent_iff : (∀ rule ∈ rules, ∀ message, rule.attempt window s ≠ .error message) ↔
    ∀ rule ∈ rules, ∀ message, ¬ rule.Fails window s message := by
  simp only [ne_eq, attempt_eq_error]

/-- If no match on top wins, there is none. -/
theorem below_iff : (∀ c : Candidate κ, c.Wins rules window s → c.rule.top = false) ↔
    ∀ j d, Offers rules window s j d → d.rule.top = false := by
  constructor
  · intro below j d offered
    have settles := standing_settles rules window s
    obtain ⟨here, attempted⟩ := offered.attempt
    have member := List.mem_of_getElem? here
    cases best : (standing rules window s).best with
    | none => exact absurd attempted (settles.absent best d.rule member d)
    | some c =>
      have wins := settles.best c best
      rw [Bool.eq_false_iff]
      intro top
      have won := wins.top member top attempted
      rw [below c wins] at won
      cases won
  · intro below c wins
    obtain ⟨j, offered⟩ := exists_offers wins.mem wins.found
    exact below j c offered

theorem selection_ok : select rules window s = .ok c ↔ Selection rules window s (.ok c) := by
  rw [select_eq_ok, wins_iff, silent_iff]
  constructor
  · rintro ⟨⟨⟨i, leads⟩, ranked⟩, decided⟩
    cases top : c.rule.top with
    | true =>
      rw [top] at leads
      exact .top leads
    | false =>
      have below (j : Nat) (d : Candidate κ) (offered : Offers rules window s j d) : d.rule.top = false := by
        rw [Bool.eq_false_iff]
        intro higher
        rw [ranked j d offered higher] at top
        cases top
      have same : (fun j d => Offers rules window s j d ∧ d.rule.top = c.rule.top) = Offers rules window s := by
        funext j d
        rw [eq_iff_iff, and_iff_left_iff_imp, top]
        exact below j d
      refine .longest below (decided.resolve_left fun higher => ?_) (same ▸ leads)
      rw [top] at higher
      cases higher
  · intro selected
    cases selected with
    | top leads =>
      have top := leads.offered.2
      exact ⟨⟨⟨_, by rwa [top]⟩, fun _ _ _ _ => top⟩, .inl top⟩
    | longest below silent leads =>
      have rank (j : Nat) (d : Candidate κ) (offered : Offers rules window s j d) : d.rule.top = c.rule.top :=
        (below j d offered).trans (below _ c leads.offered).symm
      refine ⟨⟨⟨_, ⟨leads.offered, rfl⟩, fun j d offered => leads.longest j d offered.1,
        fun j d offered => leads.earliest j d offered.1⟩, fun j d offered top => ?_⟩, .inr silent⟩
      rw [← rank j d offered, top]

theorem selection_error : select rules window s = .error message ↔ Selection rules window s (.error message) := by
  rw [select_eq_error, below_iff]
  constructor
  · rintro (⟨failed, below⟩ | ⟨rfl, absent⟩)
    · obtain ⟨earlier, rule, later, rfl, here, before⟩ := List.findSome?_eq_some_iff.mp failed
      have reported : (earlier ++ rule :: later)[earlier.length]? = some rule := by simp
      refine .failure below reported (attempt_eq_error.mp (failure?_eq_some.mp here)) ?_
      intro j less rule' there other fails
      rw [List.getElem?_append_left less] at there
      exact failure?_eq_none.mp (before rule' (List.mem_of_getElem? there)) other (attempt_eq_error.mpr fails)
    · refine .unmatched (fun j d offered => ?_) fun rule member other fails => ?_
      · obtain ⟨here, attempted⟩ := offered.attempt
        rw [absent d.rule (List.mem_of_getElem? here)] at attempted
        cases attempted
      · have attempted := attempt_eq_error.mpr fails
        rw [absent rule member] at attempted
        cases attempted
  · intro selected
    cases selected with
    | failure below here fails first =>
      refine .inl ⟨List.findSome?_eq_some_iff.mpr ⟨_, _, _, split_at here, ?_, fun earlier member => ?_⟩, below⟩
      · exact failure?_eq_some.mpr (attempt_eq_error.mpr fails)
      · obtain ⟨j, less, there⟩ := exists_before member
        exact failure?_eq_none.mpr fun other failed => first j less earlier there other (attempt_eq_error.mp failed)
    | unmatched absent silent =>
      refine .inr ⟨rfl, fun rule member => ?_⟩
      cases attempted : rule.attempt window s with
      | error other => exact absurd (attempt_eq_error.mp attempted) (silent rule member other)
      | ok found =>
        cases found with
        | none => rfl
        | some d =>
          obtain ⟨j, offered⟩ := exists_offers member attempted
          exact absurd offered (absent j d)

theorem selection_iff {outcome : Except Text (Candidate κ)} :
    select rules window s = outcome ↔ Selection rules window s outcome := by
  cases outcome with
  | ok c => exact selection_ok
  | error message => exact selection_error

/-- What is selected is what the description says, for all rules, windows and states: there is just one such
outcome. A match that is selected makes the next token, and an error is reported at the place of the state. -/
theorem select_iff_selection (rules : List (Rule κ)) (window : Text) (s : State κ) (outcome : Except Text (Candidate κ)) :
    (select rules window s = outcome ↔ Selection rules window s outcome) ∧
      ∀ (lexer : Lexer κ) (stream : Stream κ), ∃ chosen,
        Selection lexer.grammar.rules (lexer.window stream.rest) stream.state.beforeMatch chosen ∧
          lexer.step stream = match chosen with
            | .ok c => .ok (lexer.accept stream c)
            | .error message => .error ⟨message, stream.state.line, stream.state.column, lexer.file⟩ := by
  refine ⟨selection_iff, fun lexer stream => ⟨_, selection_iff.mp rfl, ?_⟩⟩
  cases chosen : select lexer.grammar.rules (lexer.window stream.rest) stream.state.beforeMatch with
  | ok c => exact step_of_select chosen
  | error message => exact step_of_failure chosen

end Netlist.Lexer
