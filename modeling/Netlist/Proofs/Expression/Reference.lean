import Netlist.Library.Standard
import Netlist.Proofs.Expression.Complete
import Netlist.Proofs.Expression.Nesting
import Netlist.Proofs.Expression.Sound

/-!
Evaluation in a scope agrees with the grammar: a text that reads as a tree has the value of the
tree, and any other text has none.
-/
namespace Netlist

def Scope.vocabulary (scope : Scope) : Vocabulary where
  takesTexts name := (scope.function? name).any Function.isRaw
  operators := scope.operators

def Scope.meaning (scope : Scope) (simulation : Option Simulation) (t : Text) : Resolver World :=
  scope.resolver (nestedIn (evaluationDepth - 1) t) simulation

theorem Scope.evaluate_eq_run (scope : Scope) (simulation : Option Simulation) (t : Text) :
    scope.evaluate simulation t = Machine.run (scope.meaning simulation t) t :=
  evaluateWithin_succ (evaluationDepth - 1) scope simulation t

/-- A fault of an evaluation is an error, or the fault of a function that the text can call, or comes
from a letter behind a number whose lower case has fewer bytes. -/
def Scope.MayFail (scope : Scope) (simulation : Option Simulation) (t : Text) (fault : Fault) : Prop :=
  (∃ e, fault = .error e) ∨
  (∃ f, ((∃ name, scope.function? name = some f) ∨ f ∈ scope.operators) ∧ ∃ arguments world,
    ((scope.meaning simulation t).call f arguments world).1 = .error fault) ∨
  (fault = .violated ∧ '\u212a' ∈ t)

theorem Scope.mayFail_of_meaning {scope : Scope} {simulation : Option Simulation} {t : Text} {fault : Fault}
    (fails : (scope.meaning simulation t).MayFail t fault) : scope.MayFail simulation t fault := by
  rcases fails with error | letter | ⟨name, world, parameter⟩ | ⟨f, arguments, world, offered, call⟩ |
    ⟨name, world, unknown⟩ | ⟨name, world, note⟩
  · exact .inl error
  · exact .inr (.inr letter)
  · simp only [Scope.meaning, Scope.resolver] at parameter
    cases value : (scope.parameter? name).or (constant? name) with
    | some v =>
      rw [value] at parameter
      cases parameter
    | none =>
      rw [value] at parameter
      cases parameter
      exact .inl ⟨_, rfl⟩
  · exact .inr (.inl ⟨f, offered, arguments, world, call⟩)
  · cases unknown
    exact .inl ⟨_, rfl⟩
  · cases note

/-- Evaluation refines the grammar. A text that reads as a tree has the value of the tree or its
first error. A text that reads as none has no value in any world: it ends with an error, unless a
function ends otherwise. -/
theorem Scope.evaluate_refines_grammar (scope : Scope) (simulation : Option Simulation) (t : Text) :
    (∀ e, scope.vocabulary.Reads t e → scope.evaluate simulation t = e.eval (scope.meaning simulation t) t) ∧
    ((¬ ∃ e, scope.vocabulary.Reads t e) →
      ∀ world, ∃ fault, (scope.evaluate simulation t world).1 = .error fault ∧ scope.MayFail simulation t fault) := by
  rw [evaluate_eq_run]
  refine ⟨fun e reads => Vocabulary.Reads.run_eq (r := scope.meaning simulation t) reads, fun refused world => ?_⟩
  have ends := Machine.run_sound (scope.meaning simulation t) t
  rcases outcome : Machine.run (scope.meaning simulation t) t world with ⟨fault | v, after⟩
  · exact ⟨fault, rfl, mayFail_of_meaning (ends.of_error outcome)⟩
  · exact absurd (ends.of_ok outcome) refused

def Vocabulary.withoutTexts (w : Vocabulary) : Vocabulary := { w with takesTexts := fun _ => false }

/-- Not every call has the values of its arguments: a function over texts gets the texts, whatever
they are. -/
theorem not_evaluate_eq_eval_of_arguments :
    ¬ ∀ (scope : Scope) (simulation : Option Simulation) (t : Text) (e : Tree),
      scope.vocabulary.withoutTexts.Reads t e →
        scope.evaluate simulation t = e.eval (scope.meaning simulation t) t := by
  intro every
  let scope := Scope.standard .spice3f5
  let t := chars "def(x)"
  let e : Tree := .call (chars "def") [.parameter (chars "x")]
  have reads : scope.vocabulary.withoutTexts.Reads t e := by
    have argument : Derives scope.vocabulary.withoutTexts true .expression (chars "x)") (.parameter (chars "x")) [')'] :=
      (Derives.parameter rfl rfl).lower (by decide)
    have closing : longestOperator? scope.operators (skip [')']) = none :=
      Option.isNone_iff_eq_none.mp (by decide +kernel)
    exact ⟨[], (Derives.closeCall (.firstArgument rfl rfl argument) ⟨closing, rfl⟩).lower (by decide), rfl⟩
  have value : (scope.evaluate none t {}).1.isOk = true := by decide +kernel
  have error : (e.eval (scope.meaning none t) t {}).1.isOk = false := by decide +kernel
  rw [every scope none t e reads, error] at value
  cases value

end Netlist
