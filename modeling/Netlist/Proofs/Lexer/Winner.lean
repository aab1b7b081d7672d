import Netlist.Proofs.Lexer.Extent

/-!
Which rule wins. The match that is selected beats those of the rules before its own and is not beaten
by those of the rules behind it, and there is only one such match.
-/
namespace Netlist.Lexer
variable {κ : Type} {rule : Rule κ} {rules : List (Rule κ)} {window : Text} {s : State κ} {c d : Candidate κ}

theorem attempt_rule (found : rule.attempt window s = .ok (some c)) : c.rule = rule := by
  unfold Rule.attempt at found
  split at found
  · cases found
  · split at found
    · obtain ⟨length, _, rfl⟩ := Option.map_eq_some_iff.mp (Except.ok.inj found)
      rfl
    · split at found
      · cases found
      · split at found
        · cases found
        · obtain ⟨capture, _, rfl⟩ := Option.map_eq_some_iff.mp (Except.ok.inj found)
          rfl

theorem exists_attempt {p : Pattern} {e : Cursor} (recognizer : rule.recognizer = .pattern p.atStart)
    (applies : rule.applies s = true) (head : (p.ends (.start window)).head? = some e) (positive : 0 < e.offset) :
    ∃ d, rule.attempt window s = .ok (some d) ∧ d.length = e.offset := by
  have length : p.atStart.findEnd? window = some e.offset := by rw [Pattern.findEnd?_atStart, head, Option.map_some]
  refine ⟨⟨rule, e.offset, none⟩, ?_, rfl⟩
  unfold Rule.attempt
  rw [if_neg (by simp [applies]), recognizer]
  simp [length, positive]

theorem Candidate.beats_asymm (first : c.beats d = true) : d.beats c = false := by
  simp only [beats, Bool.or_eq_true, Bool.and_eq_true, Bool.not_eq_true', beq_iff_eq, decide_eq_true_eq,
    Bool.or_eq_false_iff] at first ⊢
  rcases first with ⟨top, below⟩ | ⟨same, longer⟩
  · simp [top, below]
  · rw [same]
    simp only [Bool.and_not_self, BEq.rfl, Bool.true_and, decide_eq_false_iff_not, true_and]
    omega

theorem Candidate.top_of_not_beaten (held : d.beats c = false) (top : d.rule.top = true) : c.rule.top = true := by
  simp only [beats, top, Bool.true_and, Bool.or_eq_false_iff, Bool.not_eq_false'] at held
  exact held.1

structure Candidate.Wins (rules : List (Rule κ)) (window : Text) (s : State κ) (c : Candidate κ) : Prop where
  found : c.rule.attempt window s = .ok (some c)
  split : ∃ earlier later, rules = earlier ++ c.rule :: later ∧
    (∀ rule ∈ earlier, ∀ d, rule.attempt window s = .ok (some d) → c.beats d = true) ∧
    ∀ rule ∈ later, ∀ d, rule.attempt window s = .ok (some d) → d.beats c = false

theorem Candidate.Wins.mem (wins : c.Wins rules window s) : c.rule ∈ rules := by
  obtain ⟨earlier, later, rfl, _⟩ := wins.split
  exact List.mem_append_right _ List.mem_cons_self

theorem Candidate.Wins.not_beaten (wins : c.Wins rules window s) (member : rule ∈ rules)
    (found : rule.attempt window s = .ok (some d)) : d.beats c = false := by
  obtain ⟨earlier, later, rfl, before, behind⟩ := wins.split
  rcases List.mem_append.mp member with here | there
  · exact beats_asymm (before rule here d found)
  · rcases List.mem_cons.mp there with rfl | there
    · rw [wins.found] at found
      obtain rfl := Option.some.inj (Except.ok.inj found)
      simp [beats]
    · exact behind rule there d found

theorem Candidate.Wins.top (wins : c.Wins rules window s) (member : rule ∈ rules) (top : rule.top = true)
    (found : rule.attempt window s = .ok (some d)) : c.rule.top = true :=
  top_of_not_beaten (wins.not_beaten member found) (attempt_rule found ▸ top)

theorem Candidate.Wins.unique (first : c.Wins rules window s) (second : d.Wins rules window s) : c = d := by
  obtain ⟨earlier, later, split, before, behind⟩ := first.split
  obtain ⟨earlier', later', split', before', behind'⟩ := second.split
  rw [split] at split'
  rcases List.append_eq_append_iff.mp split' with ⟨between, rfl, eq⟩ | ⟨between, rfl, eq⟩
  · cases between with
    | nil =>
      have same := (List.cons.inj eq).1
      have found := first.found
      rw [same, second.found] at found
      exact (Option.some.inj (Except.ok.inj found)).symm
    | cons rule between =>
      obtain ⟨rfl, rfl⟩ := List.cons.inj eq
      have ahead := before' c.rule (List.mem_append_right _ List.mem_cons_self) c first.found
      have under := behind d.rule (List.mem_append_right _ List.mem_cons_self) d second.found
      rw [ahead] at under
      cases under
  · cases between with
    | nil =>
      have same := (List.cons.inj eq).1
      have found := second.found
      rw [same, first.found] at found
      exact Option.some.inj (Except.ok.inj found)
    | cons rule between =>
      obtain ⟨rfl, rfl⟩ := List.cons.inj eq
      have ahead := before d.rule (List.mem_append_right _ List.mem_cons_self) d second.found
      have under := behind' c.rule (List.mem_append_right _ List.mem_cons_self) c first.found
      rw [ahead] at under
      cases under

theorem Candidate.beats_trans {b : Candidate κ} (ahead : c.beats b = true) (held : d.beats b = false) : c.beats d = true := by
  unfold beats at ahead held ⊢
  revert ahead held
  cases b.rule.top <;> cases c.rule.top <;> cases d.rule.top <;> simp <;> omega

theorem Candidate.Wins.concat (wins : c.Wins rules window s)
    (held : ∀ d, rule.attempt window s = .ok (some d) → d.beats c = false) : c.Wins (rules ++ [rule]) window s := by
  obtain ⟨earlier, later, rfl, before, behind⟩ := wins.split
  refine ⟨wins.found, earlier, later ++ [rule], by simp, before, fun rule' member d found => ?_⟩
  rcases List.mem_append.mp member with here | last
  · exact behind rule' here d found
  · obtain rfl := List.mem_singleton.mp last
    exact held d found

structure Standing.Settles (rules : List (Rule κ)) (window : Text) (s : State κ) (standing : Standing κ) : Prop where
  best : ∀ c, standing.best = some c → c.Wins rules window s
  absent : standing.best = none → ∀ rule ∈ rules, ∀ d, rule.attempt window s ≠ .ok (some d)

theorem Standing.Settles.update {standing : Standing κ} (settles : standing.Settles rules window s) (rule : Rule κ) :
    (standing.update (rule.attempt window s)).Settles (rules ++ [rule]) window s := by
  -- A rule that gives no match leaves the standing as it is.
  have unchanged (silent : ∀ d, rule.attempt window s ≠ .ok (some d)) {next : Standing κ} (same : next.best = standing.best) :
      next.Settles (rules ++ [rule]) window s := by
    refine ⟨fun c found => ?_, fun unmatched rule' member d => ?_⟩
    · exact (settles.best c (same ▸ found)).concat fun d found => absurd found (silent d)
    · rcases List.mem_append.mp member with here | last
      · exact settles.absent (same ▸ unmatched) rule' here d
      · obtain rfl := List.mem_singleton.mp last
        exact silent d
  unfold Standing.update
  split
  · next eq => exact unchanged (by simp [eq]) rfl
  · next eq => exact unchanged (by simp [eq]) rfl
  · next c found =>
    split
    · next beaten =>
      refine ⟨fun d same => ?_, fun unmatched => nomatch unmatched⟩
      obtain rfl := Option.some.inj same
      have own := attempt_rule found
      refine ⟨own ▸ found, rules, [], by rw [own], fun rule' member d found' => ?_, fun _ inside => nomatch inside⟩
      cases best : standing.best with
      | none => exact absurd found' (settles.absent best rule' member d)
      | some b =>
        rw [best] at beaten
        exact Candidate.beats_trans beaten ((settles.best b best).not_beaten member found')
    · next held =>
      refine ⟨fun b best => (settles.best b best).concat fun d found' => ?_, fun unmatched => ?_⟩
      · obtain rfl := Option.some.inj (Except.ok.inj (found.symm.trans found'))
        rw [best] at held
        exact Bool.eq_false_iff.mpr held
      · rw [unmatched] at held
        exact absurd rfl held

theorem standing_settles (rules : List (Rule κ)) (window : Text) (s : State κ) :
    (standing rules window s).Settles rules window s := by
  have fold (later earlier : List (Rule κ)) (first : Standing κ) (settles : first.Settles earlier window s) :
      (later.foldl (fun standing rule => standing.update (rule.attempt window s)) first).Settles (earlier ++ later)
        window s := by
    induction later generalizing earlier first with
    | nil => simpa using settles
    | cons rule later ih => simpa using ih _ _ (settles.update rule)
  refine fold rules [] {} ⟨?_, ?_⟩ <;> simp

theorem Candidate.Wins.best_eq (wins : c.Wins rules window s) : (standing rules window s).best = some c := by
  have settles := standing_settles rules window s
  cases found : (standing rules window s).best with
  | none => exact absurd wins.found (settles.absent found c.rule wins.mem c)
  | some d => rw [(settles.best d found).unique wins]

def failure? : Except Text (Option (Candidate κ)) → Option Text
  | .error message => some message
  | .ok _ => none

@[simp] theorem failure?_eq_some {outcome : Except Text (Option (Candidate κ))} {message : Text} :
    failure? outcome = some message ↔ outcome = .error message := by
  cases outcome <;> simp [failure?]

theorem failure?_eq_none {outcome : Except Text (Option (Candidate κ))} :
    failure? outcome = none ↔ ∀ message, outcome ≠ .error message := by
  cases outcome <;> simp [failure?]

theorem Standing.update_failure (standing : Standing κ) (outcome : Except Text (Option (Candidate κ))) :
    (standing.update outcome).failure = standing.failure.or (failure? outcome) := by
  unfold update
  split
  · rfl
  · simp [failure?]
  · split <;> simp [failure?]

/-- The first rule that fails decides how a standing does. -/
theorem standing_failure (rules : List (Rule κ)) (window : Text) (s : State κ) :
    (standing rules window s).failure = rules.findSome? fun rule => failure? (rule.attempt window s) := by
  have fold (rules : List (Rule κ)) (first : Standing κ) :
      (rules.foldl (fun standing rule => standing.update (rule.attempt window s)) first).failure =
        first.failure.or (rules.findSome? fun rule => failure? (rule.attempt window s)) := by
    induction rules generalizing first with
    | nil => simp
    | cons rule rules ih =>
      rw [List.foldl_cons, ih, Standing.update_failure, Option.or_assoc, List.findSome?_cons]
      cases failure? (rule.attempt window s) <;> rfl
  exact fold rules {}

/-- The match that is selected wins, and it is on top unless no rule fails. -/
theorem select_eq_ok : select rules window s = .ok c ↔
    c.Wins rules window s ∧ (c.rule.top = true ∨ ∀ rule ∈ rules, ∀ message, rule.attempt window s ≠ .error message) := by
  have settles := standing_settles rules window s
  have silent : (standing rules window s).failure = none ↔
      ∀ rule ∈ rules, ∀ message, rule.attempt window s ≠ .error message := by
    simp only [standing_failure, List.findSome?_eq_none_iff, failure?_eq_none]
  constructor
  · intro won
    unfold select at won
    dsimp only at won
    split at won
    · next best found calm =>
      cases won
      exact ⟨settles.best c found, .inr (silent.mp calm)⟩
    · next best found _ =>
      split at won
      · next top =>
        cases won
        exact ⟨settles.best c found, .inl top⟩
      · cases won
    · cases won
    · cases won
  · rintro ⟨wins, decided⟩
    unfold select
    dsimp only
    rw [wins.best_eq]
    cases failed : (standing rules window s).failure with
    | none => rfl
    | some message =>
      rcases decided with top | calm
      · simp [top]
      · rw [silent.mpr calm] at failed
        cases failed

theorem select_wins (won : select rules window s = .ok c) : c.Wins rules window s := (select_eq_ok.mp won).1

/-- Where a rule matches, some match wins. -/
theorem exists_wins (member : rule ∈ rules) (found : rule.attempt window s = .ok (some d)) : ∃ c, Candidate.Wins rules window s c := by
  have settles := standing_settles rules window s
  cases best : (standing rules window s).best with
  | none => exact absurd found (settles.absent best rule member d)
  | some c => exact ⟨c, settles.best c best⟩

/-- Where a rule matches and none fails, some match is selected. -/
theorem exists_select (member : rule ∈ rules) (found : rule.attempt window s = .ok (some d))
    (silent : ∀ rule ∈ rules, ∀ message, rule.attempt window s ≠ .error message) : ∃ c, select rules window s = .ok c := by
  obtain ⟨c, wins⟩ := exists_wins member found
  exact ⟨c, select_eq_ok.mpr ⟨wins, .inr silent⟩⟩

theorem standing_eq_empty : ((standing rules window s).best = none ∧ (standing rules window s).failure = none) ↔
    ∀ rule ∈ rules, rule.attempt window s = .ok none := by
  have settles := standing_settles rules window s
  rw [standing_failure, List.findSome?_eq_none_iff]
  constructor
  · rintro ⟨unmatched, failed⟩ rule member
    have silent := failure?_eq_none.mp (failed rule member)
    cases attempted : rule.attempt window s with
    | error message => exact absurd attempted (silent message)
    | ok found =>
      cases found with
      | none => rfl
      | some d => exact absurd attempted (settles.absent unmatched rule member d)
  · intro absent
    constructor
    · rw [Option.eq_none_iff_forall_ne_some]
      intro c found
      have wins := settles.best c found
      have attempted := wins.found
      rw [absent c.rule wins.mem] at attempted
      cases attempted
    · intro rule member
      rw [absent rule member]
      rfl

/-- If no match is selected, the first rule that fails says why, unless no rule matches at all. -/
theorem select_eq_error {message : Text} : select rules window s = .error message ↔
    ((rules.findSome? fun rule => failure? (rule.attempt window s)) = some message ∧
      ∀ c : Candidate κ, c.Wins rules window s → c.rule.top = false) ∨
    (message = noMatchMessage window ∧ ∀ rule ∈ rules, rule.attempt window s = .ok none) := by
  have settles := standing_settles rules window s
  rw [← standing_failure, ← standing_eq_empty]
  constructor
  · intro lost
    unfold select at lost
    dsimp only at lost
    split at lost
    · cases lost
    · next best message found failed =>
      split at lost
      · cases lost
      · next below =>
        cases lost
        refine .inl ⟨failed, fun c wins => ?_⟩
        rw [wins.unique (settles.best best found)]
        exact Bool.eq_false_iff.mpr below
    · next message unmatched failed =>
      cases lost
      exact .inl ⟨failed, fun c wins => nomatch unmatched.symm.trans wins.best_eq⟩
    · next unmatched failed =>
      cases lost
      exact .inr ⟨rfl, unmatched, failed⟩
  · unfold select
    dsimp only
    rintro (⟨failed, below⟩ | ⟨rfl, unmatched, failed⟩)
    · rw [failed]
      cases found : (standing rules window s).best with
      | none => rfl
      | some best => simp [below best (settles.best best found)]
    · rw [unmatched, failed]

/-! ### States in which fewer rules match -/

/-- Whether the rules do in a second state what they do in a first, but for some that do not match there. -/
def Fewer (rules : List (Rule κ)) (window : Text) (s s' : State κ) : Prop :=
  ∀ rule ∈ rules, rule.attempt window s' = rule.attempt window s ∨ rule.attempt window s' = .ok none

theorem Fewer.found {s' : State κ} (fewer : Fewer rules window s s') (member : rule ∈ rules)
    (found : rule.attempt window s' = .ok (some d)) : rule.attempt window s = .ok (some d) := by
  rcases fewer rule member with same | none
  · exact same ▸ found
  · rw [none] at found
    cases found

theorem Fewer.failed {s' : State κ} {message : Text} (fewer : Fewer rules window s s') (member : rule ∈ rules)
    (failed : rule.attempt window s' = .error message) : rule.attempt window s = .error message := by
  rcases fewer rule member with same | none
  · exact same ▸ failed
  · rw [none] at failed
    cases failed

/-- What is selected stays selected as long as its own rule still matches. -/
theorem Fewer.select_ok {s' : State κ} (fewer : Fewer rules window s s') (won : select rules window s = .ok c)
    (own : c.rule.attempt window s' = .ok (some c)) : select rules window s' = .ok c := by
  obtain ⟨wins, decided⟩ := select_eq_ok.mp won
  obtain ⟨earlier, later, split, before, behind⟩ := wins.split
  have first (rule : Rule κ) (here : rule ∈ earlier) : rule ∈ rules := split ▸ List.mem_append_left _ here
  have last (rule : Rule κ) (there : rule ∈ later) : rule ∈ rules :=
    split ▸ List.mem_append_right _ (List.mem_cons_of_mem _ there)
  have wins' : c.Wins rules window s' := ⟨own, earlier, later, split,
    fun rule here d found => before rule here d (fewer.found (first rule here) found),
    fun rule there d found => behind rule there d (fewer.found (last rule there) found)⟩
  refine select_eq_ok.mpr ⟨wins', decided.imp_right fun silent rule member message failed => ?_⟩
  exact silent rule member message (fewer.failed member failed)

/-- A failure stays the same as long as the rules that fail so still do. -/
theorem Fewer.select_error {s' : State κ} {message : Text} (fewer : Fewer rules window s s')
    (lost : select rules window s = .error message)
    (own : ∀ rule ∈ rules, rule.attempt window s = .error message → rule.attempt window s' = .error message) :
    select rules window s' = .error message := by
  refine select_eq_error.mpr ((select_eq_error.mp lost).imp ?_ ?_)
  · rintro ⟨failed, below⟩
    constructor
    · obtain ⟨earlier, rule, later, rfl, here, before⟩ := List.findSome?_eq_some_iff.mp failed
      have inside : rule ∈ earlier ++ rule :: later := List.mem_append_right _ List.mem_cons_self
      refine List.findSome?_eq_some_iff.mpr ⟨earlier, rule, later, rfl, ?_, fun rule' member => ?_⟩
      · exact failure?_eq_some.mpr (own rule inside (failure?_eq_some.mp here))
      · refine failure?_eq_none.mpr fun message' failed' => ?_
        exact failure?_eq_none.mp (before rule' member) message' (fewer.failed (List.mem_append_left _ member) failed')
    · intro c wins
      rw [Bool.eq_false_iff]
      intro top
      have found := fewer.found wins.mem wins.found
      cases best : (standing rules window s).best with
      | none => exact (standing_settles rules window s).absent best c.rule wins.mem c found
      | some d =>
        have wins' := (standing_settles rules window s).best d best
        have ahead := wins'.top wins.mem top found
        rw [below d wins'] at ahead
        cases ahead
  · rintro ⟨same, absent⟩
    refine ⟨same, fun rule member => ?_⟩
    rcases fewer rule member with same | none
    · rw [same, absent rule member]
    · exact none

/-! ### Rules with other actions -/

def Rule.acting (action : κ → State κ → Text → State κ × Emit) (rule : Rule κ) : Rule κ :=
  { rule with action := action rule.kind }

def Candidate.acting (action : κ → State κ → Text → State κ × Emit) (c : Candidate κ) : Candidate κ :=
  { c with rule := c.rule.acting action }

variable {action : κ → State κ → Text → State κ × Emit}

@[simp] theorem Rule.acting_applies (rule : Rule κ) : (rule.acting action).applies = rule.applies := rfl

@[simp] theorem Rule.acting_recognizer (rule : Rule κ) : (rule.acting action).recognizer = rule.recognizer := rfl

theorem attempt_acting (rule : Rule κ) (window : Text) (s : State κ) :
    (rule.acting action).attempt window s = (rule.attempt window s).map (Option.map (·.acting action)) := by
  unfold Rule.attempt
  rw [Rule.acting_applies, Rule.acting_recognizer]
  by_cases silent : (!rule.applies s) = true
  · rw [if_pos silent, if_pos silent]
    rfl
  · rw [if_neg silent, if_neg silent]
    cases rule.recognizer with
    | pattern p =>
      simp only [Except.map, Option.map_map]
      rfl
    | procedure trigger matcher =>
      dsimp only
      by_cases absent : (trigger.findEnd? window).isNone = true
      · rw [if_pos absent, if_pos absent]
        rfl
      · rw [if_neg absent, if_neg absent]
        cases matcher window s with
        | error message => rfl
        | ok found =>
          simp only [Except.map, Option.map_map]
          rfl

def Standing.acting (action : κ → State κ → Text → State κ × Emit) (standing : Standing κ) : Standing κ :=
  { standing with best := standing.best.map (·.acting action) }

theorem update_acting (standing : Standing κ) (outcome : Except Text (Option (Candidate κ))) :
    (standing.acting action).update (outcome.map (Option.map (·.acting action))) = (standing.update outcome).acting action := by
  cases outcome with
  | error message => rfl
  | ok found =>
    cases found with
    | none => rfl
    | some c =>
      have same : (standing.acting action).best.all (c.acting action).beats = standing.best.all c.beats := by
        cases best : standing.best <;> simp [Standing.acting, best, Candidate.beats, Candidate.acting, Rule.acting]
      dsimp only [Except.map, Option.map, Standing.update]
      rw [same]
      split <;> rfl

theorem standing_acting (rules : List (Rule κ)) (window : Text) (s : State κ) :
    standing (rules.map (·.acting action)) window s = (standing rules window s).acting action := by
  have fold (rules : List (Rule κ)) (first : Standing κ) :
      (rules.map (·.acting action)).foldl (fun standing rule => standing.update (rule.attempt window s)) (first.acting action) =
        (rules.foldl (fun standing rule => standing.update (rule.attempt window s)) first).acting action := by
    induction rules generalizing first with
    | nil => rfl
    | cons rule rules ih => rw [List.map_cons, List.foldl_cons, List.foldl_cons, attempt_acting, update_acting, ih]
  exact fold rules {}

/-- Which match is selected does not depend on the actions of rules. -/
theorem select_acting (rules : List (Rule κ)) (window : Text) (s : State κ) :
    select (rules.map (·.acting action)) window s = (select rules window s).map (·.acting action) := by
  unfold select
  dsimp only
  rw [standing_acting]
  obtain ⟨best, failure⟩ := standing rules window s
  cases best with
  | none => cases failure <;> rfl
  | some best =>
    cases failure with
    | none => rfl
    | some message =>
      have same : (best.acting action).rule.top = best.rule.top := rfl
      dsimp only [Standing.acting, Option.map]
      rw [same]
      split <;> rfl

end Netlist.Lexer
