import Netlist.Expression.Evaluation
import Netlist.Proofs.Expression.Computation
import Netlist.Proofs.Library.Kinds
import Netlist.Proofs.Real.Comparison

/-!
The functions of the library violate no precondition behind their check of the number of arguments,
and hand on the errors of the texts that they evaluate. The exception is `limit` with two bounds
that are no numbers.
-/
namespace Netlist

/-- Whether a program ends with a value or an error as long as the texts that it evaluates do: it
violates no precondition, evaluates nothing but texts of a kind in a scope without parameters of
its own, and ends with the error of such a text. -/
def Program.Returning {α : Type} (asks : Text → Prop) : Program α → Prop
  | done _ | fail _ => True
  | violated => False
  | parameter _ next => ∀ v, (next v).Returning asks
  | evaluate bindings t next =>
    bindings = [] ∧ asks t ∧ (∀ e, next (.error e) = .fail e) ∧ ∀ v, (next (.ok v)).Returning asks
  | draw next => ∀ n, (next n).Returning asks
  | simulation next => ∀ s, (next s).Returning asks
  | note _ next => next.Returning asks

namespace Program
variable {α β : Type} {asks : Text → Prop}

theorem Returning.bind {p : Program α} {k : α → Program β} (first : p.Returning asks)
    (next : ∀ a, (k a).Returning asks) : (p >>= k).Returning asks := by
  change (p.bind k).Returning asks
  induction p with
  | done a => exact next a
  | fail => trivial
  | violated => exact first.elim
  | parameter name rest ih => exact fun v => ih v (first v)
  | evaluate bindings t rest ih =>
    obtain ⟨own, asked, errors, values⟩ := first
    refine ⟨own, asked, fun e => ?_, fun v => ih _ (values v)⟩
    change (rest (.error e)).bind k = _
    rw [errors e]
    rfl
  | draw rest ih => exact fun n => ih n (first n)
  | simulation rest ih => exact fun s => ih s (first s)
  | note e rest ih => exact ih first

theorem returning_value {t : Text} (asked : asks t) : (value [] t).Returning asks :=
  ⟨rfl, asked, fun _ => rfl, fun _ => trivial⟩

theorem bind_bind {γ : Type} (p : Program α) (k : α → Program β) (l : β → Program γ) :
    (p.bind k).bind l = p.bind fun a => (k a).bind l := by
  induction p with
  | done | fail | violated => rfl
  | parameter name rest ih => exact congrArg (parameter name) (funext ih)
  | evaluate bindings t rest ih => exact congrArg (evaluate bindings t) (funext ih)
  | draw rest ih => exact congrArg draw (funext ih)
  | simulation rest ih => exact congrArg simulation (funext ih)
  | note e rest ih => exact congrArg (note e) ih

theorem returning_values_bind {ts : List Text} (asked : ∀ t ∈ ts, asks t) {k : List Float → Program β}
    (next : ∀ vs, vs.length = ts.length → (k vs).Returning asks) : (values ts >>= k).Returning asks := by
  change ((values ts).bind k).Returning asks
  induction ts generalizing k with
  | nil => exact next [] rfl
  | cons t ts ih =>
    change (((value [] t).bind fun v => (values ts).bind fun vs => done (v :: vs)).bind k).Returning asks
    rw [bind_bind]
    refine (returning_value (asked t List.mem_cons_self)).bind fun v => ?_
    rw [bind_bind]
    exact ih (fun t member => asked t (List.mem_cons_of_mem _ member)) fun vs same => next (v :: vs) (by simp [same])

/-- A program that hands on the error of a text goes on behind the value of the text. -/
theorem run_evaluate {bindings : List (Text × Float)} {t : Text} {next : Except EvalError Float → Program α} {nested : Nested}
    {s : Scope} {simulation : Option Simulation} (failing : ∀ e, next (.error e) = .fail e) :
    (evaluate bindings t next).run nested s simulation =
      nested (s.child bindings) simulation t >>= fun v => (next (.ok v)).run nested s simulation := by
  funext world
  dsimp only [run]
  rw [Eval.bind_apply, Eval.bind_apply, Eval.attempt_apply]
  rcases nested (s.child bindings) simulation t world with ⟨(e | _ | _) | v, after⟩
  · change (next (.error e)).run nested s simulation after = _
    rw [failing e]
    rfl
  all_goals rfl

/-- A program ends like the texts that it evaluates, or with an error. -/
theorem Returning.ends {α : Type} {asks : Text → Prop} {bad : Fault → Prop} (errors : ∀ e, bad (.error e))
    {nested : Nested} {s : Scope} {simulation : Option Simulation}
    (inner : ∀ t, asks t → Eval.Ends (nested (s.child []) simulation t) (fun _ => True) bad) {p : Program α}
    (returning : p.Returning asks) : Eval.Ends (p.run nested s simulation) (fun _ => True) bad := by
  induction p with
  | done a => exact .pure trivial
  | fail e => exact .raise (errors e)
  | violated => exact returning.elim
  | parameter name next ih => exact ih _ (returning _)
  | evaluate bindings t next ih =>
    obtain ⟨rfl, asked, failing, values⟩ := returning
    rw [run_evaluate failing]
    exact (inner t asked).bind fun v _ => ih _ (values v)
  | draw next ih => exact fun world => ih _ (returning _) { world with generator := world.generator.next.2 }
  | simulation next ih => exact ih _ (returning _)
  | note e next ih => exact fun world => ih returning { world with events := world.events ++ [e] }

theorem Direct.returning {draws : Prop} {p : Program α} (direct : p.Direct draws) : p.Returning asks := by
  induction p with
  | done | fail => trivial
  | draw next ih => exact fun n => ih n (direct.2 n)
  | violated | parameter | evaluate | simulation | note => exact direct.elim

end Program

namespace Function

structure Returning (f : Function) : Prop where
  values : ∀ vs, (f.call (.values vs)).Returning fun _ => False
  texts : ∀ ts, (f.call (.raw ts)).Returning (· ∈ ts)
  derivatives : ∀ vs p, f.derivatives? vs = some p → p.Returning fun _ => False

theorem Direct.returning {draws : Prop} {f : Function} (direct : f.Direct draws) : f.Returning where
  values vs := (direct.values vs).returning
  texts ts := by
    obtain ⟨e, refused, own⟩ := direct.texts ts
    rw [refused]
    exact own.returning
  derivatives vs p given := (direct.derivatives vs p given).returning

theorem returning_of_texts {f : Function} {body : List Text → Program Float} (logic : f.logic = .raw body)
    (flat : f.derivative = none)
    (texts : ∀ ts, f.arity.accepts ts.length = true → (body ts).Returning (· ∈ ts)) : f.Returning where
  values vs := by
    unfold call
    rw [logic]
    split <;> trivial
  texts ts := by
    unfold call
    rw [logic]
    split
    · trivial
    · next accepted => exact texts ts (by simpa [Arguments.count] using accepted)
  derivatives vs p given := by
    unfold derivatives? at given
    rw [flat] at given
    cases given

end Function

namespace Library

theorem returning_definedFunction : definedFunction.Returning := by
  refine Function.returning_of_texts rfl rfl fun ts accepted => ?_
  obtain ⟨name, rfl⟩ := Arity.accepts_one.mp accepted
  exact fun _ => trivial

theorem returning_lazyFunction : lazyFunction.Returning := by
  refine Function.returning_of_texts rfl rfl fun ts accepted => ?_
  obtain ⟨t, rfl⟩ := Arity.accepts_one.mp accepted
  exact Program.returning_value (List.mem_singleton_self t)

theorem returning_tableFunction : tableFunction.Returning := by
  refine Function.returning_of_texts rfl rfl fun ts accepted => ?_
  split
  · trivial
  · refine Program.returning_values_bind (fun t => id) fun vs same => ?_
    cases vs with
    | nil =>
      rw [← same] at accepted
      cases accepted
    | cons x rest => trivial

/-- All functions of the library return but `limit`. -/
theorem returning {d : Dialect} {f : Function} (member : f ∈ functions d) (other : f ≠ limitFunction) : f.Returning := by
  cases kind_of_mem member with
  | table => exact returning_tableFunction
  | lazy => exact returning_lazyFunction
  | defined => exact returning_definedFunction
  | limit => exact absurd rfl other
  | constant direct | random _ direct => exact direct.returning

theorem limit_eq_violated {x a b : Float} (undefined : a.isNaN = true ∧ b.isNaN = true) : limit x a b = .violated := by
  unfold limit
  dsimp only
  rw [if_pos]
  simpa using fun below => Double.minimum_le_maximum_iff.mp below undefined

theorem returning_limit {x a b : Float} (number : ¬ (a.isNaN = true ∧ b.isNaN = true)) {asks : Text → Prop} :
    (limit x a b).Returning asks := by
  unfold limit
  dsimp only
  rw [if_neg]
  · trivial
  · simpa using Double.minimum_le_maximum_iff.mpr number

end Library

end Netlist
