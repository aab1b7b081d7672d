import Netlist.Proofs.Expression.Computation
import Netlist.Proofs.Expression.Reading

/-!
What one step of the scan does, in terms of the tokens of the grammar. For each kind of token
there is an equation, and `operand_step` and `operator_step` say that these are all.
-/
namespace Netlist.Machine
variable {σ : Type} {r : Resolver σ} {m : Machine} {t rest : Text}

theorem operand_group (opening : m.rest = '(' :: rest) :
    m.operand r = return { m with rest }.await .parenthesis := by
  simp [operand, opening]

theorem operand_sign (at_token : m.rest = skip t) {s : UnaryOperator} (read : sign? t = some (s, rest)) :
    m.operand r = return { m with rest }.await (.unary s) := by
  unfold sign? at read
  rw [← at_token] at read
  split at read
  · next eq => cases read; simp [operand, eq]
  · next eq => cases read; simp [operand, eq]
  · next eq => cases read; simp [operand, eq]
  · cases read

theorem operand_close {callee : Callee} {stack : List Operation} (closing : m.rest = ')' :: rest)
    (open_call : m.stack = .call callee m.values.length :: stack) :
    m.operand r = { m with rest, stack }.finishCall r callee m.values.length := by
  simp [operand, closing, open_call]

theorem operand_reference (at_token : m.rest = skip t) {arguments : List Text}
    (read : reference? t = some (arguments, rest)) :
    m.operand r = do return { m with rest }.push (← r.refer m.expression arguments) := by
  unfold reference? at read
  rw [← at_token] at read
  split at read
  · next more eq =>
    have reads : m.operand r = { m with rest := more }.reference r := by simp [operand, eq]
    rw [reads]
    unfold reference
    dsimp only at read ⊢
    split at read
    · cases read
    · next name =>
      rw [if_neg name]
      unfold Resolver.refer
      split at read
      · next inner opened =>
        split at read
        · next closed =>
          cases read
          simp only [opened, closed, pure_bind]
          cases r.function? ['@'] with
          | none => rfl
          | some f => dsimp only; split <;> rfl
        · cases read
      · next other opened =>
        cases read
        simp only [pure_bind]
        cases r.function? ['@'] with
        | none => rfl
        | some f => dsimp only; split <;> rfl
  · cases read

theorem operand_reference_none (at_token : m.rest = skip t) (reference : m.rest = '@' :: rest)
    (read : reference? t = none) : ∃ e, m.operand r = Eval.raise e := by
  have reads : m.operand r = { m with rest }.reference r := by simp [operand, reference]
  rw [reads]
  unfold reference? at read
  rw [← at_token] at read
  split at read
  · next more eq =>
    cases reference.symm.trans eq
    unfold Machine.reference
    dsimp only at read ⊢
    split at read
    · next name => exact ⟨_, by rw [if_pos name]⟩
    · next name =>
      rw [if_neg name]
      split at read
      · next inner opened =>
        split at read
        · cases read
        · next closed => exact ⟨_, by simp only [opened, closed, Eval.raise_bind]; rfl⟩
      · cases read
  · next other => exact absurd reference (other rest)

private theorem not_delimiter {p : Char → Bool} {c : Char} (holds : p c = true)
    (apart : p '(' = false ∧ p '+' = false ∧ p '-' = false ∧ p '!' = false ∧ p ')' = false ∧ p '@' = false) :
    c ≠ '(' ∧ c ≠ '+' ∧ c ≠ '-' ∧ c ≠ '!' ∧ c ≠ ')' ∧ c ≠ '@' := by
  refine ⟨?_, ?_, ?_, ?_, ?_, ?_⟩ <;> (rintro rfl; simp_all)

private theorem operand_numeral (at_token : m.rest = skip t) (start : (skip t).head?.any isNumeralStart = true)
    (present : Number.literal (!m.stack.any (·.isCall)) (skip t) ≠ .absent) : m.operand r = m.numeral := by
  rw [← at_token] at start present
  cases eq : m.rest with
  | nil => simp [eq] at start
  | cons c more =>
    have starts : isNumeralStart c = true := by simpa [eq] using start
    obtain ⟨h₁, h₂, h₃, h₄, h₅, h₆⟩ := not_delimiter starts (by decide)
    have digit : (c.isDigit || (c == '.' && more.head?.any Char.isDigit)) = true := by
      simp only [isNumeralStart, Bool.or_eq_true, beq_iff_eq] at starts
      rcases starts with digit | rfl
      · simp [digit]
      · rw [eq] at present
        simp [Number.digit_of_point present]
    unfold operand
    simp only [eq, h₁, h₂, h₃, h₄, h₅, h₆, digit, if_false, if_true]

theorem operand_literal (at_token : m.rest = skip t) {v : Float} (start : (skip t).head?.any isNumeralStart = true)
    (read : Number.literal (!m.stack.any (·.isCall)) (skip t) = .found v rest) :
    m.operand r = return { m with rest }.push v := by
  rw [operand_numeral at_token start (by rw [read]; exact nofun)]
  unfold numeral
  rw [at_token, read]

theorem operand_torn (at_token : m.rest = skip t) (start : (skip t).head?.any isNumeralStart = true)
    (read : Number.literal (!m.stack.any (·.isCall)) (skip t) = .torn) : m.operand r = throw .violated := by
  rw [operand_numeral at_token start (by rw [read]; exact nofun)]
  unfold numeral
  rw [at_token, read]

theorem operand_absent (at_token : m.rest = skip t) (start : (skip t).head?.any isNumeralStart = true)
    (read : Number.literal (!m.stack.any (·.isCall)) (skip t) = .absent) : m.operand r = Eval.raise m.unexpected := by
  rw [← at_token] at start read
  cases eq : m.rest with
  | nil => simp [eq] at start
  | cons c more =>
    have starts : isNumeralStart c = true := by simpa [eq] using start
    obtain ⟨h₁, h₂, h₃, h₄, h₅, h₆⟩ := not_delimiter starts (by decide)
    have other : isIdentifierStart c = false := by
      by_contra identifier
      have signless := not_numeral (by simpa using identifier) true
      simp only [isNumeralStart] at starts
      simp [starts] at signless
    unfold operand
    simp only [eq, h₁, h₂, h₃, h₄, h₅, h₆, other, if_false, Bool.false_eq_true]
    split
    · unfold numeral
      rw [read]
    · rfl

private theorem operand_identifier (at_token : m.rest = skip t) {name : Text} (read : identifier? t = some (name, rest)) :
    m.operand r = match skip rest with
      | '(' :: more => { m with rest := more }.startCall r name
      | _ => do return { m with rest }.push (← r.parameter name m.expression) := by
  unfold identifier? at read
  rw [← at_token] at read
  split at read
  · next start =>
    cases read
    cases eq : m.rest with
    | nil => simp [eq] at start
    | cons c more =>
      have starts : isIdentifierStart c = true := by simpa [eq] using start
      obtain ⟨h₁, h₂, h₃, h₄, h₅, h₆⟩ := not_delimiter starts (by decide)
      have digit : (c.isDigit || (c == '.' && more.head?.any Char.isDigit)) = false := not_numeral starts _
      unfold operand
      simp only [eq, h₁, h₂, h₃, h₄, h₅, h₆, digit, starts, if_false, if_true, Bool.false_eq_true]
      unfold identifier
      rw [eq]
      rfl
  · cases read

private theorem operand_callHead (at_token : m.rest = skip t) {name : Text} (head : callHead? t = some (name, rest)) :
    m.operand r = { m with rest }.startCall r name := by
  obtain ⟨after, found, opened⟩ := callHead?_eq_some.mp head
  rw [operand_identifier at_token found, opened]
  rfl

theorem operand_capture (at_token : m.rest = skip t) {name u : Text} {arguments : List Text}
    (head : callHead? t = some (name, u)) (texts : r.vocabulary.takesTexts name = true)
    (read : captureArguments 0 false [] [] u = some (arguments, rest)) :
    m.operand r = do return { m with rest }.push (← r.invokeRaw m.expression name arguments) := by
  rw [operand_callHead at_token head]
  unfold startCall Resolver.invokeRaw
  simp only [Resolver.vocabulary] at texts
  cases function : r.function? name with
  | none => simp [function] at texts
  | some f =>
    simp only [function, Option.any_some] at texts
    simp only [texts, if_true, read]

theorem operand_capture_none (at_token : m.rest = skip t) {name : Text} (head : callHead? t = some (name, rest))
    (texts : r.vocabulary.takesTexts name = true) (read : captureArguments 0 false [] [] rest = none) :
    m.operand r = Eval.raise (.unbalancedParentheses m.expression) := by
  rw [operand_callHead at_token head]
  unfold startCall
  simp only [Resolver.vocabulary] at texts
  cases function : r.function? name with
  | none => simp [function] at texts
  | some f =>
    simp only [function, Option.any_some] at texts
    simp only [texts, if_true, read]

theorem operand_call (at_token : m.rest = skip t) {name : Text} (head : callHead? t = some (name, rest))
    (values : r.vocabulary.takesTexts name = false) :
    m.operand r = do
      r.announce name
      return { m with rest }.await (.call (r.callee name) m.values.length) := by
  rw [operand_callHead at_token head]
  unfold startCall Resolver.announce Resolver.callee
  simp only [Resolver.vocabulary] at values
  cases function : r.function? name with
  | none =>
    cases Builtin.ofName? name with
    | none => rfl
    | some f => rfl
  | some f =>
    simp only [function, Option.any_some] at values
    simp only [values, Bool.false_eq_true, if_false, pure_bind]

theorem operand_parameter (at_token : m.rest = skip t) {name : Text} (read : identifier? t = some (name, rest))
    (alone : callHead? t = none) :
    m.operand r = do return { m with rest }.push (← r.parameter name m.expression) := by
  rw [operand_identifier at_token read]
  split
  · next more opened =>
    rw [callHead?_eq_some.mpr ⟨rest, read, opened⟩] at alone
    cases alone
  · rfl

/-- What the step at an operand can be, for a machine in front of the token that follows `t`. -/
inductive OperandStep (r : Resolver σ) (t : Text) (m : Machine) : Eval σ Machine → Prop
  | group {more} (opening : skip t = '(' :: more) : OperandStep r t m (return { m with rest := more }.await .parenthesis)
  | sign {s more} (read : sign? t = some (s, more)) : OperandStep r t m (return { m with rest := more }.await (.unary s))
  | close {callee stack more} (closing : skip t = ')' :: more) (open_call : m.stack = .call callee m.values.length :: stack) :
      OperandStep r t m ({ m with rest := more, stack }.finishCall r callee m.values.length)
  | reference {arguments more} (read : reference? t = some (arguments, more)) :
      OperandStep r t m (do return { m with rest := more }.push (← r.refer m.expression arguments))
  | literal {v more} (start : (skip t).head?.any isNumeralStart = true)
      (read : Number.literal (!m.stack.any (·.isCall)) (skip t) = .found v more) :
      OperandStep r t m (return { m with rest := more }.push v)
  | torn (start : (skip t).head?.any isNumeralStart = true)
      (read : Number.literal (!m.stack.any (·.isCall)) (skip t) = .torn) : OperandStep r t m (throw .violated)
  | capture {name t₁ arguments more} (head : callHead? t = some (name, t₁))
      (texts : r.vocabulary.takesTexts name = true) (read : captureArguments 0 false [] [] t₁ = some (arguments, more)) :
      OperandStep r t m (do return { m with rest := more }.push (← r.invokeRaw m.expression name arguments))
  | call {name more} (head : callHead? t = some (name, more)) (values : r.vocabulary.takesTexts name = false) :
      OperandStep r t m (do
        r.announce name
        return { m with rest := more }.await (.call (r.callee name) m.values.length))
  | parameter {name more} (read : identifier? t = some (name, more)) (alone : callHead? t = none) :
      OperandStep r t m (do return { m with rest := more }.push (← r.parameter name m.expression))
  | failure (e : EvalError) : OperandStep r t m (Eval.raise e)

private theorem numeral_step (at_token : m.rest = skip t) (start : (skip t).head?.any isNumeralStart = true) :
    OperandStep r t m (m.operand r) := by
  cases read : Number.literal (!m.stack.any (·.isCall)) (skip t) with
  | found v rest =>
    rw [operand_literal at_token start read]
    exact .literal start read
  | torn =>
    rw [operand_torn at_token start read]
    exact .torn start read
  | absent =>
    rw [operand_absent at_token start read]
    exact .failure _

private theorem identifier_step (at_token : m.rest = skip t) {name : Text} (read : identifier? t = some (name, rest)) :
    OperandStep r t m (m.operand r) := by
  cases head : callHead? t with
  | none =>
    rw [operand_parameter at_token read head]
    exact .parameter read head
  | some found =>
    cases texts : r.vocabulary.takesTexts found.1 with
    | false =>
      rw [operand_call at_token head texts]
      exact .call head texts
    | true =>
      cases captured : captureArguments 0 false [] [] found.2 with
      | none =>
        rw [operand_capture_none at_token head texts captured]
        exact .failure _
      | some arguments =>
        rw [operand_capture at_token head texts captured]
        exact .capture head texts captured

private theorem reference_step (at_token : m.rest = skip t) (reference : m.rest = '@' :: rest) :
    OperandStep r t m (m.operand r) := by
  cases read : reference? t with
  | none =>
    obtain ⟨e, failed⟩ := operand_reference_none (r := r) at_token reference read
    rw [failed]
    exact .failure e
  | some found =>
    rw [operand_reference at_token read]
    exact .reference read

private theorem close_step (at_token : m.rest = skip t) (closing : m.rest = ')' :: rest) :
    OperandStep r t m (m.operand r) := by
  unfold operand
  simp only [closing, Char.reduceEq, if_false, if_true]
  split
  · next callee base stack top =>
    split
    · next here =>
      subst here
      exact .close (at_token.symm.trans closing) top
    · exact .failure _
  · exact .failure _

theorem operand_step (r : Resolver σ) {m : Machine} {t : Text} (at_token : m.rest = skip t) :
    OperandStep r t m (m.operand r) := by
  cases eq : m.rest with
  | nil =>
    rw [show m.operand r = Eval.raise (.stackUnderflow m.expression) by simp [operand, eq]]
    exact .failure _
  | cons c rest =>
    have skipped : skip t = c :: rest := at_token.symm.trans eq
    cases signed : sign? t with
    | some found =>
      rw [operand_sign at_token signed]
      exact .sign signed
    | none =>
      obtain ⟨plus, minus, not⟩ : c ≠ '+' ∧ c ≠ '-' ∧ c ≠ '!' := by
        refine ⟨?_, ?_, ?_⟩ <;> (rintro rfl; simp [sign?, skipped] at signed)
      by_cases group : c = '('
      · subst group
        rw [operand_group eq]
        exact .group skipped
      by_cases close : c = ')'
      · exact close_step at_token (close ▸ eq)
      by_cases reference : c = '@'
      · exact reference_step at_token (reference ▸ eq)
      by_cases numeral : isNumeralStart c = true
      · exact numeral_step at_token (by simp [skipped, numeral])
      by_cases identifier : isIdentifierStart c = true
      · have read : identifier? t = some (m.rest.takeWhile isIdentifierPart, m.rest.dropWhile isIdentifierPart) := by
          simp [identifier?, ← at_token, eq, identifier]
        exact identifier_step at_token read
      · unfold operand
        simp only [isNumeralStart, Bool.or_eq_true, beq_iff_eq, not_or] at numeral
        simp only [eq, group, plus, minus, not, close, reference, numeral, identifier, if_false, beq_iff_eq,
          Bool.or_eq_true, Bool.and_eq_true, false_and]
        exact .failure _

theorem operator_connective (at_token : m.rest = skip t) {op : Connective}
    (read : r.vocabulary.connective? t = some (op, rest)) :
    m.operator r = do return (← { m with rest }.reduce r op.precedence).await op.operation := by
  unfold Vocabulary.connective? at read
  unfold operator
  rw [← at_token] at read
  split at read
  · next f more longest =>
    cases read
    rw [show r.operators = r.vocabulary.operators from rfl, longest]
    rfl
  · next longest =>
    obtain ⟨⟨op, more⟩, builtin, same⟩ := Option.map_eq_some_iff.mp read
    cases same
    rw [show r.operators = r.vocabulary.operators from rfl, longest]
    cases eq : m.rest with
    | nil =>
      rw [eq] at builtin
      cases builtin
    | cons c after =>
      rw [eq] at builtin
      have other : c ≠ ')' ∧ c ≠ ',' ∧ c ≠ '?' ∧ c ≠ ':' := by
        refine ⟨?_, ?_, ?_, ?_⟩ <;> (rintro rfl; cases builtin)
      simp only [other, if_false, builtin]
      rfl

theorem operator_close (at_token : m.rest = skip t) (delimits : r.vocabulary.Delimits ')' t rest) :
    m.operator r = { m with rest }.close r := by
  obtain ⟨longest, closing⟩ := delimits
  rw [← at_token] at longest closing
  unfold operator
  rw [show r.operators = r.vocabulary.operators from rfl, longest]
  simp only [closing, if_true]

theorem operator_comma (at_token : m.rest = skip t) (delimits : r.vocabulary.Delimits ',' t rest) :
    m.operator r = { m with rest }.comma r m.offset := by
  obtain ⟨longest, comma⟩ := delimits
  rw [← at_token] at longest comma
  unfold operator
  rw [show r.operators = r.vocabulary.operators from rfl, longest]
  simp [comma]

theorem operator_question (at_token : m.rest = skip t) (delimits : r.vocabulary.Delimits '?' t rest) :
    m.operator r = do return (← { m with rest }.reduce r (Precedence.conditional + 1)).await .question := by
  obtain ⟨longest, question⟩ := delimits
  rw [← at_token] at longest question
  unfold operator
  rw [show r.operators = r.vocabulary.operators from rfl, longest]
  simp [question]

theorem operator_colon (at_token : m.rest = skip t) (delimits : r.vocabulary.Delimits ':' t rest) :
    m.operator r = { m with rest }.colon r := by
  obtain ⟨longest, colon⟩ := delimits
  rw [← at_token] at longest colon
  unfold operator
  rw [show r.operators = r.vocabulary.operators from rfl, longest]
  simp [colon]

/-- What the step where an operator may stand can be, for a machine in front of the token that
follows `t`. -/
inductive OperatorStep (r : Resolver σ) (t : Text) (m : Machine) : Eval σ Machine → Prop
  | connective {op more} (read : r.vocabulary.connective? t = some (op, more)) :
      OperatorStep r t m (do return (← { m with rest := more }.reduce r op.precedence).await op.operation)
  | close {more} (delimits : r.vocabulary.Delimits ')' t more) : OperatorStep r t m ({ m with rest := more }.close r)
  | comma {more} (delimits : r.vocabulary.Delimits ',' t more) :
      OperatorStep r t m ({ m with rest := more }.comma r m.offset)
  | question {more} (delimits : r.vocabulary.Delimits '?' t more) :
      OperatorStep r t m (do return (← { m with rest := more }.reduce r (Precedence.conditional + 1)).await .question)
  | colon {more} (delimits : r.vocabulary.Delimits ':' t more) : OperatorStep r t m ({ m with rest := more }.colon r)
  | failure (e : EvalError) : OperatorStep r t m (Eval.raise e)

theorem operator_step (r : Resolver σ) {m : Machine} {t : Text} (at_token : m.rest = skip t) :
    OperatorStep r t m (m.operator r) := by
  cases read : r.vocabulary.connective? t with
  | some found =>
    rw [operator_connective at_token read]
    exact .connective read
  | none =>
    have longest : longestOperator? r.vocabulary.operators (skip t) = none := by
      unfold Vocabulary.connective? at read
      split at read
      · cases read
      · assumption
    cases eq : m.rest with
    | nil =>
      rw [show m.operator r = Eval.raise (.stackUnderflow m.expression) by
        unfold operator
        rw [at_token, show r.operators = r.vocabulary.operators from rfl, longest, ← at_token, eq]]
      exact .failure _
    | cons c rest =>
      have delimits : r.vocabulary.Delimits c t rest := ⟨longest, at_token.symm.trans eq⟩
      by_cases close : c = ')'
      · subst close
        rw [operator_close at_token delimits]
        exact .close delimits
      by_cases comma : c = ','
      · subst comma
        rw [operator_comma at_token delimits]
        exact .comma delimits
      by_cases question : c = '?'
      · subst question
        rw [operator_question at_token delimits]
        exact .question delimits
      by_cases colon : c = ':'
      · subst colon
        rw [operator_colon at_token delimits]
        exact .colon delimits
      · have builtin : BinaryOperator.read? (skip t) = none := by
          simpa [Vocabulary.connective?, longest] using read
        rw [show m.operator r = Eval.raise m.unexpected by
          unfold operator
          rw [at_token, show r.operators = r.vocabulary.operators from rfl, longest]
          simp only [delimits.2, close, comma, question, colon, if_false]
          rw [← delimits.2, builtin]]
        exact .failure _

end Netlist.Machine
