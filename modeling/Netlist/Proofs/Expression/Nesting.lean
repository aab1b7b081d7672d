import Netlist.Expression.Evaluation

/-!
Evaluations inside of evaluations. The bound on the length of nested texts is no restriction: a
text has the same value under every bound above its length, so evaluation at a depth satisfies an
equation in which only the depth is left.
-/
namespace Netlist.Evaluator
variable {σ : Type} {step : Evaluator σ → Evaluator σ}

private theorem shorter_succ (outer : Evaluator σ) {bound : Nat} (scope : Scope) (simulation : Option Simulation)
    {t : Text} (fits : t.length ≤ bound) :
    shorter step outer (bound + 1) scope simulation t =
      step (fun scope simulation inner =>
        if inner.length < t.length then shorter step outer bound scope simulation inner
        else outer scope simulation inner) scope simulation t :=
  if_pos fits

/-- Evaluation with one level of depth more, of texts shorter than a bound. -/
theorem shorter_eq (outer : Evaluator σ) {bound bound' : Nat} (scope : Scope) (simulation : Option Simulation)
    {t : Text} (fits : t.length < bound) (fits' : t.length < bound') :
    shorter step outer bound scope simulation t = shorter step outer bound' scope simulation t := by
  induction size : t.length using Nat.strongRecOn generalizing t scope simulation bound bound' with
  | ind n ih =>
    obtain ⟨b, rfl⟩ := Nat.exists_eq_add_one_of_ne_zero (Nat.ne_of_gt (Nat.zero_lt_of_lt fits))
    obtain ⟨b', rfl⟩ := Nat.exists_eq_add_one_of_ne_zero (Nat.ne_of_gt (Nat.zero_lt_of_lt fits'))
    rw [shorter_succ outer scope simulation (Nat.le_of_lt_succ fits),
      shorter_succ outer scope simulation (Nat.le_of_lt_succ fits')]
    have same (scope : Scope) (simulation : Option Simulation) (inner : Text) (less : inner.length < t.length) :=
      ih inner.length (size ▸ less) scope simulation (show inner.length < b by omega) (show inner.length < b' by omega) rfl
    congr 1
    funext scope simulation inner
    split
    · next less => exact same scope simulation inner less
    · rfl

/-- How the texts nested in a text are evaluated: those that are shorter at the same depth. -/
def inside (step : Evaluator σ → Evaluator σ) (depth : Nat) (t : Text) : Evaluator σ := fun scope simulation inner =>
  within step (if inner.length < t.length then depth + 1 else depth) scope simulation inner

theorem within_succ (depth : Nat) (scope : Scope) (simulation : Option Simulation) (t : Text) :
    within step (depth + 1) scope simulation t = step (inside step depth t) scope simulation t := by
  change shorter step (within step depth) (t.length + 1) scope simulation t = _
  rw [shorter_succ _ scope simulation (Nat.le_refl _)]
  congr 1
  funext scope simulation inner
  unfold inside
  split
  · next less =>
    change _ = shorter step (within step depth) (inner.length + 1) scope simulation inner
    exact shorter_eq _ scope simulation less (Nat.lt_succ_self _)
  · rfl

end Netlist.Evaluator

namespace Netlist

def nestedIn (depth : Nat) (t : Text) : Nested := fun scope simulation inner =>
  evaluateWithin (if inner.length < t.length then depth + 1 else depth) scope simulation inner

theorem evaluateWithin_succ (depth : Nat) (scope : Scope) (simulation : Option Simulation) (t : Text) :
    evaluateWithin (depth + 1) scope simulation t = Machine.run (scope.resolver (nestedIn depth t) simulation) t :=
  Evaluator.within_succ depth scope simulation t

end Netlist
