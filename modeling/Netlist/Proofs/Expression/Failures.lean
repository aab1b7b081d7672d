import Netlist.Proofs.Expression.Stacks

/-!
How an evaluation fails. The move that ends it is a complaint of the scan, a fault of the meaning of a name, or
comes from the end of a text where an operand is missing.
-/
namespace Netlist.Machine

open Relation

variable {σ : Type} {r : Resolver σ} {t : Text} {m : Machine} {s s' : σ} {a : Moment σ} {f : Fault}
  {bad : Fault → σ → Prop}

structure LacksOperand (m : Machine) : Prop where
  exhausted : skip m.rest = []
  waiting : m.expectOperator = false

theorem eq_of_after_eq_ended {α : Type} {k : α → σ → Moment σ} {result : Except Fault α × σ}
    (goes : ∀ a s, k a s ≠ .ended (.error f) s') (ended : Moment.after k result = .ended (.error f) s') :
    result = (.error f, s') := by
  rcases result with ⟨f' | a, s⟩
  · cases ended
    rfl
  · exact absurd ended (goes a s)

theorem Moment.eq_of_fail {e : EvalError} (failed : Moment.fail e s = .ended (.error f) s') : f = .error e ∧ s' = s := by
  cases failed
  exact ⟨rfl, rfl⟩

/-- Once nothing binds as tightly, a failure is a complaint of the scan. -/
theorem settle_complains {p : Purpose} (whole : m.expression = t) {behind : Text} (place : behind <:+ t)
    (reads : p = .finish ∨ p.Reads r.vocabulary t behind m.rest) (below : Below p.precedence m.stack)
    (known : Complete r t p.precedence behind m.stack m.values.length) (failed : p.settle m s = .ended (.error f) s') :
    ∃ e, f = .error e ∧ Complains t e := by
  obtain ⟨text, rest, values, stack, expects⟩ := m
  obtain rfl : text = t := whole
  have complaint {e : EvalError} (own : Complains text e) (failed : Moment.fail e s = .ended (.error f) s') :
      ∃ e, f = .error e ∧ Complains text e := ⟨e, (Moment.eq_of_fail failed).1, own⟩
  rcases reads with rfl | reads
  · rcases stack with _ | ⟨op, stack⟩
    · obtain ⟨v, rfl⟩ := List.length_eq_one_iff.mp known.alone
      cases failed
    · have stays := below op rfl
      rw [show Purpose.finish.precedence = 1 from rfl, op.binds_one] at stays
      cases op with
      | parenthesis | call => exact complaint .unbalanced failed
      | question => exact complaint .unmatched failed
      | _ => cases stays
  · cases reads with
    | connective | question => cases failed
    | colon mark =>
      dsimp only [Purpose.settle] at failed
      split at failed
      · cases failed
      · exact complaint .unmatched failed
    | comma mark offset =>
      have comma : Complains text (.unexpectedText [','] (byteSize text - byteSize (skip behind)) text) :=
        complains_unexpected (m := { expression := text, rest := skip behind }) ((skip_suffix behind).trans place)
          (mark.2 ▸ List.prefix_append [','] _)
      dsimp only [Purpose.settle] at failed
      split at failed
      · cases failed
      · exact complaint .unmatched failed
      · exact complaint (offset ▸ comma) failed
    | close mark =>
      dsimp only [Purpose.settle] at failed
      split at failed
      · cases failed
      · cases failed
      · exact complaint .unmatched failed
      · exact complaint .unbalanced failed

variable (names : r.FailsOnly t bad) (own : ∀ e s, Complains t e → bad (.error e) s) (torn : ∀ s, bad .violated s)

include names own torn

theorem read_fails (whole : m.expression = t) (within : m.rest <:+ t) (shape : Shape r t m)
    (failed : m.read r s = .ended (.error f) s') : bad f s' ∨ m.LacksOperand ∧ f = .error (.stackUnderflow t) ∧ s' = s := by
  unfold read at failed
  split at failed
  · next exhausted =>
    split at failed
    · cases failed
    · next waiting =>
      obtain ⟨rfl, rfl⟩ := Moment.eq_of_fail failed
      exact .inr ⟨⟨by simpa using exhausted, by simpa using waiting⟩, by rw [whole], rfl⟩
  · next more =>
    have behind : m.atToken.rest <:+ m.atToken.expression := whole ▸ (skip_suffix _).trans within
    refine .inl ?_
    split at failed
    · split at failed
      · cases failed
      · obtain ⟨rfl, rfl⟩ := Moment.eq_of_fail failed
        exact own _ _ (whole ▸ complains_unexpected behind (List.takeWhile_prefix _))
    · next waiting =>
      split at failed
      · cases failed
      · have offered := (shape.unfinished waiting).offered
        have stuck := eq_of_after_eq_ended nofun failed
        subst whole
        exact operand_fails (m := m.atToken) names own behind (by simpa [atToken] using more) torn offered s f s' stuck

/-- The move that ends an evaluation with a fault. -/
theorem InStep.fails (known : InStep r t a) (moves : Moves r a (.ended (.error f) s')) :
    bad f s' ∨ ∃ m : Machine, a = .scanning m s' ∧ m.LacksOperand ∧ f = .error (.stackUnderflow t) := by
  have in_step := known
  cases known with
  | scanning whole within shape =>
    rcases read_fails names own torn whole within shape (Option.some.inj moves) with failed | ⟨lacks, fault, rfl⟩
    · exact .inl failed
    · exact .inr ⟨_, rfl, lacks, fault⟩
  | @reducing p m s _ _ _ _ whole within ready place reads before operand count =>
    obtain ⟨text, rest, values, stack, expects⟩ := m
    have failed := Option.some.inj moves
    have settled (below : Below p.precedence stack)
        (settle : p.settle ⟨text, rest, values, stack, expects⟩ s = .ended (.error f) s') : bad f s' := by
      have known : Complete r t p.precedence _ stack values.length := ⟨_, _, _, before, operand.complete, count⟩
      obtain ⟨e, rfl, complains⟩ := settle_complains whole place reads below known settle
      exact own e s' complains
    rcases stack with _ | ⟨op, stack⟩
    · exact .inl (settled (fun _ top => nomatch top) failed)
    · change (if op.binds p.precedence then _ else _) = _ at failed
      cases binds : op.binds p.precedence with
      | false =>
        rw [binds, if_neg Bool.false_ne_true] at failed
        exact .inl (settled (below_cons binds stack) failed)
      | true =>
        rw [binds, if_pos rfl] at failed
        obtain ⟨n, takes, enough⟩ := in_step.operands rfl binds
        have applied := eq_of_after_eq_ended nofun failed
        obtain rfl : text = t := whole
        exact .inl (apply_fails names (before.offered op List.mem_cons_self) takes enough s f s' applied)
  | @calling m s base _ _ _ whole within before call count =>
    have called := eq_of_after_eq_ended nofun (Option.some.inj moves)
    have enough : base ≤ m.values.length := count ▸ Nat.le_add_right _ _
    subst whole
    exact .inl (finishCall_fails names own (r.offered_callee _ _) enough s f s' called)
  | ended => cases moves

/-- An evaluation fails because of the text as a whole, with a complaint of the scan, as the meaning of a name does, or
because the text is exhausted in front of an operand. -/
theorem run_fails (failed : run r t s = (.error f, s')) :
    bad f s' ∨ f = .error .empty ∨ f = .error (.bracketed t) ∨
      ∃ m : Machine, Reaches r (.start t s) (.scanning m s') ∧ m.LacksOperand ∧ f = .error (.stackUnderflow t) := by
  rcases (run_eq_iff_reaches.mp failed).cases_tail with start | ⟨a, reached, last⟩
  · unfold Moment.start at start
    split at start
    · exact .inr (.inl (Moment.eq_of_fail start.symm).1)
    · split at start
      · exact .inr (.inr (.inl (Moment.eq_of_fail start.symm).1))
      · cases start
  · rcases (inStep_of_reaches reached).fails names own torn last with fault | ⟨m, rfl, lacks, fault⟩
    · exact .inl fault
    · exact .inr (.inr (.inr ⟨m, reached, lacks, fault⟩))

end Netlist.Machine
