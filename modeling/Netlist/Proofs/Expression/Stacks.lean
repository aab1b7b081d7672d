import Netlist.Proofs.Expression.Complaints
import Netlist.Proofs.Expression.Margins
import Netlist.Proofs.Expression.Moments

/-!
The stacks of an evaluation are never out of step. At every moment the operations that wait have the values
they take, and an open call has one value for each argument up to there.
-/
namespace Netlist

namespace Unfinished
variable {σ : Type} {r : Resolver σ} {whole t : Text} {stack : List Operation} {height : Nat}

theorem suffix (before : Unfinished r whole stack height t) : t <:+ whole := by
  induction before with
  | start => exact List.suffix_rfl
  | group _ opening ih => exact (suffix_of_skip_eq opening).1.trans ih
  | sign _ signed ih => exact (sign?_follows signed).1.trans ih
  | call _ head _ _ ih => exact (callHead?_follows head).1.trans ih
  | argument _ arguments _ comma _ ih => exact ((suffix_of_skip_eq comma.2).1.trans arguments.ends.suffix).trans ih
  | connective _ _ _ left read ih => exact ((connective?_suffix read).trans left.ends.suffix).trans ih
  | question _ _ condition mark ih => exact ((suffix_of_skip_eq mark.2).1.trans condition.ends.suffix).trans ih
  | colon _ _ condition mark consequence colon ih =>
    have chosen := (suffix_of_skip_eq mark.2).1.trans condition.ends.suffix
    exact (((suffix_of_skip_eq colon.2).1.trans consequence.ends.suffix).trans chosen).trans ih

theorem base_le (before : Unfinished r whole stack height t) {callee : Callee} {base : Nat}
    (member : .call callee base ∈ stack) : base ≤ height := by
  have below {op : Operation} {stack : List Operation} (member : Operation.call callee base ∈ op :: stack)
      (other : Operation.call callee base ≠ op) : .call callee base ∈ stack :=
    (List.mem_cons.mp member).resolve_left other
  induction before with
  | start => cases member
  | group _ _ ih | sign _ _ ih => exact ih (below member nofun)
  | call _ _ _ _ ih =>
    rcases List.mem_cons.mp member with same | deeper
    · cases same
      exact Nat.le_refl _
    · exact ih deeper
  | argument _ _ _ _ _ ih =>
    rcases List.mem_cons.mp member with same | deeper
    · cases same
      exact Nat.le_add_right _ _
    · exact (ih deeper).trans (Nat.le_add_right _ _)
  | question _ _ _ _ ih | colon _ _ _ _ _ _ ih => exact (ih (below member nofun)).trans (Nat.le_add_right _ _)
  | @connective _ _ _ _ _ _ op _ _ is _ _ _ ih =>
    have other : Operation.call callee base ≠ op.operation := by cases op <;> exact nofun
    exact (ih (below member (is ▸ other))).trans (Nat.le_add_right _ _)

end Unfinished

namespace Machine

open Relation

variable {σ : Type} {r : Resolver σ} {t : Text} {m : Machine} {s s' : σ} {a b : Moment σ} {p : Purpose}

/-! ### What holds at every moment -/

inductive InStep (r : Resolver σ) (t : Text) : Moment σ → Prop
  | scanning {m : Machine} {s : σ} (whole : m.expression = t) (within : m.rest <:+ t) (shape : Shape r t m) :
      InStep r t (.scanning m s)
  | reducing {p : Purpose} {m : Machine} {s : σ} {height : Nat} {t₀ behind : Text} {e : Tree} (whole : m.expression = t)
      (within : m.rest <:+ t) (ready : m.expectOperator = true) (place : behind <:+ t)
      (reads : p = .finish ∨ p.Reads r.vocabulary t behind m.rest) (before : Unfinished r t m.stack height t₀)
      (operand : Operand r.vocabulary (m.stack.any (·.isCall)) p.precedence (operandLevel m.stack) t₀ e behind)
      (count : m.values.length = height + 1) : InStep r t (.reducing p m s)
  | calling {m : Machine} {s : σ} {base : Nat} {t₀ name : Text} {es : List Tree} (whole : m.expression = t)
      (within : m.rest <:+ t) (before : Unfinished r t m.stack base t₀)
      (call : Derives r.vocabulary (m.stack.any (·.isCall)) .primary t₀ (.call name es) m.rest)
      (count : m.values.length = base + es.length) : InStep r t (.calling (r.callee name) base m s)
  | ended {outcome : Except Fault Float} {s : σ} : InStep r t (.ended outcome s)

theorem Complete.alone {p count : Nat} {rest : Text} (known : Complete r t p rest [] count) : count = 1 := by
  obtain ⟨height, t₀, e, before, _, rfl⟩ := known
  cases before
  rfl

theorem Purpose.Reads.suffix {w : Vocabulary} {behind rest : Text} (reads : p.Reads w t behind rest) : rest <:+ behind := by
  cases reads with
  | connective read => exact connective?_suffix read
  | question mark | colon mark | comma mark _ | close mark => exact (suffix_of_skip_eq mark.2).1

theorem Purpose.precedence_le (p : Purpose) : p.precedence ≤ Precedence.power + 1 := by
  cases p with
  | connective op => exact (precedence_range op).2.1.trans (Nat.le_succ _)
  | _ => exact Nat.le_of_ble_eq_true rfl

theorem inStep_after {α : Type} {k : α → σ → Moment σ} {result : Except Fault α × σ}
    (later : ∀ a s, result = (.ok a, s) → InStep r t (k a s)) : InStep r t (.after k result) := by
  rcases result with ⟨f | a, s⟩
  · exact .ended
  · exact later a s rfl

theorem Shape.complete (shape : Shape r t m) (ready : m.expectOperator = true) :
    Complete r t (Precedence.power + 1) m.rest m.stack m.values.length := by
  cases shape with
  | operand waiting =>
    rw [ready] at waiting
    cases waiting
  | operator _ known => exact known

theorem Shape.unfinished (shape : Shape r t m) (waiting : ¬ m.expectOperator = true) :
    Unfinished r t m.stack m.values.length m.rest := by
  cases shape with
  | operand _ before => exact before
  | operator ready => exact absurd ready waiting

/-- A token behind an operand leads to what is in step. -/
theorem inStep_reducing {behind : Text} (whole : m.expression = t) (within : m.rest <:+ t) (ready : m.expectOperator = true)
    (place : behind <:+ t) (reads : p = .finish ∨ p.Reads r.vocabulary t behind m.rest)
    (known : Complete r t (Precedence.power + 1) behind m.stack m.values.length) : InStep r t (.reducing p m s) := by
  obtain ⟨height, t₀, e, before, derives, count⟩ := known
  exact .reducing whole within ready place reads before
    (.level _ derives (Purpose.precedence_le _) (operandLevel_le_primary _)) count

theorem inStep_read (whole : m.expression = t) (within : m.rest <:+ t) (shape : Shape r t m) : InStep r t (m.read r s) := by
  unfold read
  split
  · split
    · next ready =>
      exact inStep_reducing (m := m.atToken) whole ((skip_suffix _).trans within) ready within (.inl rfl) (shape.complete ready)
    · exact .ended
  · split
    · next ready =>
      split
      · next p rest found =>
        have reads := whole ▸ purpose?_reads found
        exact inStep_reducing (m := { m with rest }) whole (reads.suffix.trans within) ready within (.inr reads)
          (shape.complete ready)
      · exact .ended
    · next waiting =>
      have before := shape.unfinished waiting
      split
      · next callee m' found =>
        obtain ⟨rest, stack, closing, top, rfl⟩ := emptyCall?_eq_some found
        rw [top] at before
        obtain ⟨t₀, name, rfl, before, head, values⟩ := before.of_emptyCall
        exact .calling whole ((suffix_of_skip_eq closing).1.trans within) before (.emptyCall head values closing) rfl
      · refine inStep_after fun m' s' ok => ?_
        have advanced : m.atToken.advance r s = (.ok m', s') := by
          rw [advance, if_neg (show ¬ m.atToken.expectOperator = true from waiting), ok]
        obtain ⟨same, suffix, _⟩ := (advance_progress r m).of_ok advanced
        have shape' := (operand_sound (m := m.atToken) rfl (whole ▸ (skip_suffix _).trans within) before).of_ok ok
        exact .scanning (same.trans whole) (suffix.trans within) shape'

/-- Once nothing binds as tightly, what has been read leads to what is in step. -/
theorem inStep_settle (whole : m.expression = t) (within : m.rest <:+ t) (ready : m.expectOperator = true) {behind : Text}
    (reads : p = .finish ∨ p.Reads r.vocabulary t behind m.rest) (below : Below p.precedence m.stack)
    (known : Complete r t p.precedence behind m.stack m.values.length) : InStep r t (p.settle m s) := by
  obtain ⟨text, rest, values, stack, expects⟩ := m
  rcases reads with rfl | reads
  · dsimp only [Purpose.settle]
    split <;> exact .ended
  · cases reads with
    | connective read => exact .scanning whole within (.operand rfl (known.connective below read))
    | question mark => exact .scanning whole within (.operand rfl (known.question below mark))
    | colon mark =>
      dsimp only [Purpose.settle]
      split
      · exact .scanning whole within (.operand rfl (known.colon mark))
      · exact .ended
    | comma mark _ =>
      dsimp only [Purpose.settle]
      split
      · exact .scanning whole within (.operand rfl (known.comma mark))
      · exact .ended
      · exact .ended
    | close mark =>
      dsimp only [Purpose.settle]
      split
      · exact .scanning whole within (.operator ready (known.group mark))
      · obtain ⟨t₀, name, es, rfl, before, count, call⟩ := known.call mark
        exact .calling whole within before call count
      · exact .ended
      · exact .ended

/-- Each move leads from what is in step to what is in step. -/
theorem InStep.next (known : InStep r t a) (moves : Moves r a b) : InStep r t b := by
  cases known with
  | scanning whole within shape =>
    cases moves
    exact inStep_read whole within shape
  | @reducing p m s _ _ _ _ whole within ready place reads before operand count =>
    obtain ⟨text, rest, values, stack, expects⟩ := m
    cases moves
    rcases stack with _ | ⟨op, stack⟩
    · exact inStep_settle whole within ready reads (fun _ top => nomatch top) ⟨_, _, _, before, operand.complete, count⟩
    · change InStep r t (if op.binds p.precedence then _ else _)
      cases binds : op.binds p.precedence with
      | false =>
        rw [if_neg Bool.false_ne_true]
        exact inStep_settle whole within ready reads (below_cons binds stack) ⟨_, _, _, before, operand.complete, count⟩
      | true =>
        rw [if_pos rfl]
        refine inStep_after fun values' s' ok => ?_
        obtain ⟨_, lower, _, _, _, _, before, operand, applied⟩ := unfinished_reduces before operand binds
        exact .reducing whole within ready place reads before operand ((applied text values count).of_ok ok)
  | @calling m s base _ _ _ whole within before call count =>
    cases moves
    refine inStep_after fun m' s' ok => ?_
    have enough : base ≤ m.values.length := count ▸ Nat.le_add_right _ _
    have shape := (finishCall_sound before call enough).of_ok ok
    rw [finishCall_eq r _ enough] at ok
    obtain ⟨v, _, _, pushed⟩ := Eval.bind_ok ok
    cases pushed
    exact .scanning whole within shape
  | ended => cases moves

theorem InStep.machine (known : InStep r t a) (at_moment : a.machine? = some m) :
    m.expression = t ∧ m.rest <:+ t ∧ ∃ height t₀, Unfinished r t m.stack height t₀ ∧ height ≤ m.values.length := by
  cases known with
  | scanning whole within shape =>
    cases at_moment
    refine ⟨whole, within, ?_⟩
    cases shape with
    | operand _ before => exact ⟨_, _, before, Nat.le_refl _⟩
    | operator _ known =>
      obtain ⟨height, t₀, _, before, _, count⟩ := known
      exact ⟨height, t₀, before, count ▸ Nat.le_succ _⟩
  | reducing whole within _ _ _ before _ count =>
    cases at_moment
    exact ⟨whole, within, _, _, before, count ▸ Nat.le_succ _⟩
  | calling whole within before _ count =>
    cases at_moment
    exact ⟨whole, within, _, _, before, count ▸ Nat.le_add_right _ _⟩
  | ended => cases at_moment

theorem InStep.offered (known : InStep r t a) (at_moment : a.machine? = some m) : ∀ op ∈ m.stack, op.OfferedBy r := by
  obtain ⟨-, -, height, t₀, before, -⟩ := known.machine at_moment
  exact before.offered

/-- An operation that is applied has its operands. -/
theorem InStep.operands (known : InStep r t (.reducing p m s)) {op : Operation} {stack : List Operation}
    (top : m.stack = op :: stack) (binds : op.binds p.precedence = true) :
    ∃ n, op.operands? = some n ∧ n ≤ m.values.length := by
  cases known with
  | reducing _ _ _ _ _ before operand count =>
    rw [top] at before operand
    obtain ⟨n, lower, _, _, takes, rfl, -⟩ := unfinished_reduces before operand binds
    refine ⟨n + 1, takes, ?_⟩
    rw [count, Nat.add_assoc]
    exact Nat.le_add_left _ _

/-- A call takes a value for each of its arguments. -/
theorem InStep.arguments {callee : Callee} {base : Nat} (known : InStep r t (.calling callee base m s)) :
    base ≤ m.values.length ∧ ∃ name es t₀, t₀ <:+ t ∧ callee = r.callee name ∧
      Derives r.vocabulary (m.stack.any (·.isCall)) .primary t₀ (.call name es) m.rest ∧
      ∃ arguments values : List Float, arguments.length = es.length ∧
        m.finishCall r callee base = do return push { m with values } (← r.invoke t callee arguments) := by
  cases known with
  | @calling _ _ _ t₀ name es whole _ before call count =>
    have enough : base ≤ m.values.length := count ▸ Nat.le_add_right _ _
    subst whole
    refine ⟨enough, name, es, t₀, before.suffix, rfl, call, _, _, ?_, finishCall_eq r _ enough⟩
    rw [List.length_reverse, List.length_take, count]
    omega

/-- At the end of a text one value is left over an empty stack. -/
theorem InStep.alone (known : InStep r t (.reducing p m s)) (empty : m.stack = []) : ∃ v, m.values = [v] := by
  cases known with
  | reducing _ _ _ _ _ before operand count =>
    rw [empty] at before operand
    exact List.length_eq_one_iff.mp (Complete.alone ⟨_, _, _, before, operand.complete, count⟩)

theorem InStep.start (r : Resolver σ) (t : Text) (s : σ) : InStep r t (.start t s) := by
  unfold Moment.start
  split
  · exact .ended
  · split
    · exact .ended
    · exact .scanning rfl List.suffix_rfl (.operand rfl .start)

/-- The stacks are in step at every moment that an evaluation reaches. -/
theorem inStep_of_reaches (reached : Reaches r (.start t s) a) : InStep r t a := by
  induction reached with
  | refl => exact .start r t s
  | tail _ moves ih => exact ih.next moves

end Machine

end Netlist
