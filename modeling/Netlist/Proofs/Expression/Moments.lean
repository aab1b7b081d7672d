import Mathlib.Logic.Relation
import Netlist.Proofs.Expression.Reduction

/-!
The scan in small steps. Between two moments a token is read, a single operation is applied, or a call gets
its values, so that the stacks can be looked at whenever something is taken from them. The moments that an
evaluation reaches lead to what it ends with, and to nothing else.
-/
namespace Netlist.Machine

open Relation

variable {σ : Type} {r : Resolver σ} {m : Machine} {s : σ} {rest : Text}

/-! ### Moments -/

/-- What has been read where an operator may stand. Operations that bind as tightly are applied first. -/
inductive Purpose where
  | connective (op : Connective)
  | question
  | colon
  /-- A comma, at an offset. -/
  | comma (offset : Nat)
  | close
  /-- The end of the text. -/
  | finish

def Purpose.precedence : Purpose → Nat
  | connective op => op.precedence
  | question => Precedence.conditional + 1
  | _ => Precedence.conditional

/-- The points of an evaluation, with the state of the names there. -/
inductive Moment (σ : Type) where
  /-- In front of a token, or of the end of the text. -/
  | scanning (m : Machine) (s : σ)
  /-- Behind a token, in front of an operation to be applied or behind the last one. -/
  | reducing (p : Purpose) (m : Machine) (s : σ)
  /-- In front of a call that takes the values above its base. -/
  | calling (callee : Callee) (base : Nat) (m : Machine) (s : σ)
  | ended (outcome : Except Fault Float) (s : σ)

namespace Moment

def fail (e : EvalError) (s : σ) : Moment σ := .ended (.error (.error e)) s

def machine? : Moment σ → Option Machine
  | .scanning m _ | .reducing _ m _ | .calling _ _ m _ => some m
  | .ended .. => none

def after {α : Type} (k : α → σ → Moment σ) : Except Fault α × σ → Moment σ
  | (.ok a, s) => k a s
  | (.error f, s) => .ended (.error f) s

def start (t : Text) (s : σ) : Moment σ :=
  if (trim t).isEmpty then fail .empty s
  else if isBracketed (trim t) then fail (.bracketed t) s
  else .scanning { expression := t, rest := t } s

end Moment

def purpose? (r : Resolver σ) (m : Machine) : Option (Purpose × Text) :=
  match r.vocabulary.connective? m.rest with
  | some (op, rest) => some (.connective op, rest)
  | none =>
    match skip m.rest with
    | ')' :: rest => some (.close, rest)
    | ',' :: rest => some (.comma m.atToken.offset, rest)
    | '?' :: rest => some (.question, rest)
    | ':' :: rest => some (.colon, rest)
    | _ => none

def emptyCall? (m : Machine) : Option (Callee × Machine) :=
  match skip m.rest, m.stack with
  | ')' :: rest, .call callee base :: stack =>
    if base = m.values.length then some (callee, { m with rest, stack }) else none
  | _, _ => none

def read (r : Resolver σ) (m : Machine) (s : σ) : Moment σ :=
  if (skip m.rest).isEmpty then
    if m.expectOperator then .reducing .finish m.atToken s else .fail (.stackUnderflow m.expression) s
  else if m.expectOperator then
    match m.purpose? r with
    | some (p, rest) => .reducing p { m with rest } s
    | none => .fail m.atToken.unexpected s
  else
    match m.emptyCall? with
    | some (callee, m) => .calling callee m.values.length m s
    | none => .after .scanning (m.atToken.operand r s)

def Purpose.settle (p : Purpose) (m : Machine) (s : σ) : Moment σ :=
  match p with
  | connective op => .scanning (m.await op.operation) s
  | question => .scanning (m.await .question) s
  | colon =>
    match m.stack with
    | .question :: stack => .scanning ({ m with stack }.await .conditional) s
    | _ => .fail (.unmatchedConditional m.expression) s
  | comma offset =>
    match m.stack with
    | .call .. :: _ => .scanning { m with expectOperator := false } s
    | .question :: _ => .fail (.unmatchedConditional m.expression) s
    | _ => .fail (.unexpectedText [','] offset m.expression) s
  | close =>
    match m.stack with
    | .parenthesis :: stack => .scanning { m with stack } s
    | .call callee base :: stack => .calling callee base { m with stack } s
    | .question :: _ => .fail (.unmatchedConditional m.expression) s
    | _ => .fail (.unbalancedParentheses m.expression) s
  | finish =>
    match m.stack, m.values with
    | .parenthesis :: _, _ | .call .. :: _, _ => .fail (.unbalancedParentheses m.expression) s
    | .question :: _, _ => .fail (.unmatchedConditional m.expression) s
    | _, [v] => .ended (.ok v) s
    | _, _ => .fail (.stackUnderflow m.expression) s

def next (r : Resolver σ) : Moment σ → Option (Moment σ)
  | .scanning m s => some (m.read r s)
  | .reducing p m s => some <|
    match m.stack with
    | op :: stack =>
      if op.binds p.precedence then
        .after (fun values => .reducing p { m with stack, values }) (apply r m.expression op m.values s)
      else p.settle m s
    | [] => p.settle m s
  | .calling callee base m s => some (.after .scanning (m.finishCall r callee base s))
  | .ended .. => none

def Moves (r : Resolver σ) (a b : Moment σ) : Prop := next r a = some b

abbrev Reaches (r : Resolver σ) : Moment σ → Moment σ → Prop := ReflTransGen (Moves r)

/-! ### What has been read -/

inductive Purpose.Reads (w : Vocabulary) (whole behind rest : Text) : Purpose → Prop
  | connective {op : Connective} (read : w.connective? behind = some (op, rest)) : Reads w whole behind rest (.connective op)
  | question (mark : w.Delimits '?' behind rest) : Reads w whole behind rest .question
  | colon (mark : w.Delimits ':' behind rest) : Reads w whole behind rest .colon
  | comma {offset : Nat} (mark : w.Delimits ',' behind rest) (place : offset = byteSize whole - byteSize (skip behind)) :
      Reads w whole behind rest (.comma offset)
  | close (mark : w.Delimits ')' behind rest) : Reads w whole behind rest .close

theorem longestOperator?_of_connective?_eq_none {w : Vocabulary} {t : Text} (absent : w.connective? t = none) :
    longestOperator? w.operators (skip t) = none := by
  unfold Vocabulary.connective? at absent
  split at absent
  · cases absent
  · assumption

theorem purpose?_reads {p : Purpose} (read : m.purpose? r = some (p, rest)) :
    p.Reads r.vocabulary m.expression m.rest rest := by
  unfold purpose? at read
  split at read
  · next found =>
    cases read
    exact .connective found
  · next absent =>
    have absent' := longestOperator?_of_connective?_eq_none absent
    split at read <;> cases read
    · exact .close ⟨absent', ‹_›⟩
    · exact .comma ⟨absent', ‹_›⟩ rfl
    · exact .question ⟨absent', ‹_›⟩
    · exact .colon ⟨absent', ‹_›⟩

theorem operator_unexpected (more : skip m.rest ≠ []) (absent : m.purpose? r = none) :
    m.atToken.operator r = Eval.raise m.atToken.unexpected := by
  unfold purpose? at absent
  split at absent
  · cases absent
  · next unread =>
    have longest := longestOperator?_of_connective?_eq_none unread
    have builtin : BinaryOperator.read? (skip m.rest) = none := by
      unfold Vocabulary.connective? at unread
      rw [longest] at unread
      simpa using unread
    obtain ⟨c, rest, eq⟩ := List.exists_cons_of_ne_nil more
    have at_token : m.atToken.rest = c :: rest := eq
    have other : c ≠ ')' ∧ c ≠ ',' ∧ c ≠ '?' ∧ c ≠ ':' := by
      rw [eq] at absent
      refine ⟨?_, ?_, ?_, ?_⟩ <;> (rintro rfl; cases absent)
    unfold operator
    rw [show longestOperator? r.operators m.atToken.rest = none from longest]
    simp only [at_token, other, if_false]
    rw [← at_token, show BinaryOperator.read? m.atToken.rest = none from builtin]

theorem emptyCall?_eq_some {callee : Callee} {m' : Machine} (found : m.emptyCall? = some (callee, m')) :
    ∃ rest stack, skip m.rest = ')' :: rest ∧ m.stack = .call callee m.values.length :: stack ∧
      m' = { m with rest, stack } := by
  unfold emptyCall? at found
  split at found
  · next rest callee' base stack closing top =>
    split at found
    · next here =>
      cases found
      exact ⟨rest, stack, closing, here ▸ top, rfl⟩
    · cases found
  · cases found

/-! ### How an evaluation ends -/

theorem moves_unique {a b c : Moment σ} (first : Moves r a b) (second : Moves r a c) : b = c :=
  Option.some.inj (first.symm.trans second)

theorem reaches_after {α : Type} {k : α → σ → Moment σ} {l : α → σ → Moment σ}
    (later : ∀ a s, Reaches r (k a s) (l a s)) (result : Except Fault α × σ) : Reaches r (.after k result) (.after l result) := by
  rcases result with ⟨f | a, s⟩
  · exact .refl
  · exact later a s

theorem after_bind {α β : Type} (m : Eval σ α) (f : α → Eval σ β) (k : β → σ → Moment σ) (s : σ) :
    Moment.after k ((m >>= f) s) = .after (fun a s => .after k (f a s)) (m s) := by
  rw [Eval.bind_apply]
  rcases m s with ⟨_ | _, _⟩ <;> rfl

theorem reaches_reduce (r : Resolver σ) (p : Purpose) (m : Machine) (s : σ) :
    Reaches r (.reducing p m s) (.after p.settle (m.reduce r p.precedence s)) := by
  obtain ⟨text, rest, values, stack, expects⟩ := m
  induction stack generalizing s values with
  | nil => exact .single rfl
  | cons op stack ih =>
    cases binds : op.binds p.precedence with
    | false =>
      rw [reduce_eq, unwindTo_below (below_cons binds stack)]
      refine .single ?_
      simp only [Moves, next, binds, Bool.false_eq_true, if_false]
      rfl
    | true =>
      have first : Moves r (.reducing p ⟨text, rest, values, op :: stack, expects⟩ s)
          (.after (fun values => .reducing p ⟨text, rest, values, stack, expects⟩) (apply r text op values s)) := by
        simp only [Moves, next, binds, if_true]
      have later : reduce r ⟨text, rest, values, op :: stack, expects⟩ p.precedence =
          apply r text op values >>= fun values => reduce r ⟨text, rest, values, stack, expects⟩ p.precedence := by
        rw [reduce_eq, unwindTo_cons binds, bind_assoc]
        rfl
      rw [later, after_bind]
      exact .head first (reaches_after (fun values s => ih s values) _)

/-- What is done where an operator may stand is done once nothing binds as tightly. -/
theorem reaches_operator {p : Purpose} (read : m.purpose? r = some (p, rest)) (s : σ) :
    Reaches r (.reducing p { m with rest } s) (.after .scanning (m.atToken.operator r s)) := by
  have reduced := reaches_reduce r p { m with rest } s
  cases purpose?_reads read with
  | connective found =>
    rw [operator_connective rfl found, after_bind]
    exact reduced
  | question mark =>
    rw [operator_question rfl mark, after_bind]
    exact reduced
  | colon mark =>
    rw [operator_colon rfl mark, colon, reduceGroup_eq, after_bind]
    refine reduced.trans (reaches_after (fun left s => ?_) _)
    obtain ⟨text, behind, values, _ | ⟨op, stack⟩, expects⟩ := left
    · exact .refl
    · cases op <;> exact .refl
  | comma mark place =>
    subst place
    rw [operator_comma rfl mark, comma, reduceGroup_eq, after_bind]
    refine reduced.trans (reaches_after (fun left s => ?_) _)
    obtain ⟨text, behind, values, _ | ⟨op, stack⟩, expects⟩ := left
    · exact .refl
    · cases op <;> exact .refl
  | close mark =>
    rw [operator_close rfl mark, close, reduceGroup_eq, after_bind]
    refine reduced.trans (reaches_after (fun left s => ?_) _)
    obtain ⟨text, behind, values, _ | ⟨op, stack⟩, expects⟩ := left
    · exact .refl
    · cases op with
      | call callee base => exact .single rfl
      | _ => exact .refl

theorem reaches_finish (ready : m.expectOperator = true) (s : σ) :
    Reaches r (.reducing .finish m s) (.after (fun v s => .ended (.ok v) s) (m.finish r s)) := by
  rw [finish, if_neg (by simp [ready]), reduceGroup_eq, after_bind]
  refine (reaches_reduce r .finish m s).trans (reaches_after (fun left s => ?_) _)
  obtain ⟨text, behind, values, _ | ⟨op, stack⟩, expects⟩ := left
  · rcases values with _ | ⟨v, _ | ⟨w, values⟩⟩ <;> exact .refl
  · rcases values with _ | ⟨v, _ | ⟨w, values⟩⟩ <;> cases op <;> exact .refl

theorem reaches_advance (more : skip m.rest ≠ []) (s : σ) :
    Reaches r (.scanning m s) (.after .scanning (m.atToken.advance r s)) := by
  have first : Moves r (.scanning m s) (m.read r s) := rfl
  unfold read at first
  rw [if_neg (by simpa using more)] at first
  unfold advance
  cases ready : m.expectOperator with
  | true =>
    rw [if_pos (show m.atToken.expectOperator = true from ready)]
    rw [if_pos ready] at first
    cases found : m.purpose? r with
    | none =>
      rw [found] at first
      rw [operator_unexpected more found]
      exact .single first
    | some read =>
      rw [found] at first
      exact .head first (reaches_operator found s)
  | false =>
    rw [if_neg (show ¬ m.atToken.expectOperator = true from Bool.eq_false_iff.mp ready)]
    rw [if_neg (by simp [ready])] at first
    cases found : m.emptyCall? with
    | none =>
      rw [found] at first
      exact .single first
    | some call =>
      rw [found] at first
      obtain ⟨rest, stack, closing, top, same⟩ := emptyCall?_eq_some found
      rw [operand_close (m := m.atToken) closing top]
      refine .head first (.single ?_)
      dsimp only
      rw [same]
      rfl

theorem reaches_proceed (r : Resolver σ) (m : Machine) (s : σ) :
    Reaches r (.scanning m s) (.after (fun v s => .ended (.ok v) s) (m.proceed r s)) := by
  induction left : m.remaining using Nat.strongRecOn generalizing m s with
  | ind left ih =>
    rw [proceed_eq]
    split
    · next exhausted =>
      have first : Moves r (.scanning m s) (m.read r s) := rfl
      unfold read at first
      rw [if_pos exhausted] at first
      cases ready : m.expectOperator with
      | true =>
        rw [if_pos ready] at first
        exact .head first (reaches_finish (m := m.atToken) ready s)
      | false =>
        rw [if_neg (by simp [ready])] at first
        have lacks : m.atToken.finish r = Eval.raise (.stackUnderflow m.expression) := by
          rw [finish, if_pos (by simp [atToken, ready])]
          rfl
        rw [lacks]
        exact .single first
    · next more =>
      have step := reaches_advance (r := r) (m := m) (by simpa using more) s
      rw [after_bind]
      rcases advanced : m.atToken.advance r s with ⟨f | m', s'⟩
      · rw [advanced] at step
        exact step
      · rw [advanced] at step
        have less := ((advance_progress r m).of_ok advanced).2.2
        exact step.trans (ih _ (left ▸ less) m' s' rfl)

theorem reaches_run (r : Resolver σ) (t : Text) (s : σ) :
    Reaches r (.start t s) (.ended (run r t s).1 (run r t s).2) := by
  unfold Moment.start run
  split
  · exact .refl
  · split
    · exact .refl
    · rw [scan_eq_proceed r (by simp [remaining])]
      have reached := reaches_proceed r { expression := t, rest := t } s
      rcases ended : proceed r { expression := t, rest := t } s with ⟨_ | _, _⟩ <;> (rw [ended] at reached; exact reached)

theorem eq_of_reaches_ended {outcome : Except Fault Float} {b : Moment σ} (reached : Reaches r (.ended outcome s) b) :
    b = .ended outcome s := by
  rcases reached.cases_head with same | ⟨c, first, _⟩
  · exact same.symm
  · cases first

/-- The end that an evaluation reaches is what it ends with. -/
theorem run_eq_iff_reaches {t : Text} {outcome : Except Fault Float} {s' : σ} :
    run r t s = (outcome, s') ↔ Reaches r (.start t s) (.ended outcome s') := by
  have reached := reaches_run r t s
  constructor
  · intro same
    rw [same] at reached
    exact reached
  · intro other
    have unique : Relator.RightUnique (Moves r) := fun _ _ _ => moves_unique
    rcases ReflTransGen.total_of_right_unique unique reached other with later | later
    · cases eq_of_reaches_ended later
      rfl
    · cases eq_of_reaches_ended later
      rfl

end Netlist.Machine
