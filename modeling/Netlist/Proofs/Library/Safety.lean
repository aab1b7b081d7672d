import Netlist.Proofs.Library.Bounds
import Netlist.Proofs.Library.Guard

/-!
Safety of the library. An evaluation that calls no other functions panics in `limit` only, where
both bounds are no numbers, or at a number that is torn. So do calls of these functions; their
derivatives never panic, and tables and polynomials refer to no points and arguments that there are
not.
-/
namespace Netlist

/-- Whether a computation panics in `limit` only, seen beside the one in which the guard ends `limit`
with an error there: that one returns, unless a number is torn, and ends no other way than with that
error where the first one panics. -/
structure PanicsInLimit (torn : Prop) (e : EvalError) (plain guarded : Eval World Float) : Prop where
  returns : ∀ world, (∃ outcome after, Eval.Returns guarded world outcome after) ∨
    torn ∧ (guarded world).1 = .error .violated
  same : ∀ world, (plain world).2 = (guarded world).2 ∧ ((plain world).1 = (guarded world).1 ∨
    (plain world).1 = .error .violated ∧ (guarded world).1 = .error (.error e))

theorem returns_of_ends {α : Type} {torn : Prop} {m : Eval World α} (ends : Eval.Ends m (fun _ => True) (Torn torn)) (world : World) :
    (∃ outcome after, Eval.Returns m world outcome after) ∨ torn ∧ (m world).1 = .error .violated := by
  rcases eq : m world with ⟨fault | v, after⟩
  · rcases ends.of_error eq with ⟨e, rfl⟩ | ⟨rfl, letter⟩
    · exact .inl ⟨_, _, .error eq⟩
    · exact .inr ⟨letter, rfl⟩
  · exact .inl ⟨_, _, .value eq⟩

theorem panicsInLimit {torn : Prop} {e : EvalError} {plain guarded : Eval World Float}
    (ends : Eval.Ends guarded (fun _ => True) (Torn torn)) (related : (unguarded e).holds Eq plain guarded) :
    PanicsInLimit torn e plain guarded where
  returns := returns_of_ends ends
  same world := by
    obtain ⟨outcome, after⟩ := related world
    refine ⟨after, ?_⟩
    generalize (plain world).1 = a at outcome ⊢
    generalize (guarded world).1 = b at outcome ⊢
    rcases outcome with ⟨rfl⟩ | ⟨rfl | ⟨rfl, rfl⟩⟩
    · exact .inl rfl
    · exact .inl rfl
    · exact .inr ⟨rfl, rfl⟩

namespace Library

theorem call_guarded_ends {s : Scope} (library : s.HoldsLibrary) {f : Function} (member : f ∈ functions s.dialect)
    (e : EvalError) (simulation : Option Simulation) (arguments : Arguments) :
    Eval.Ends (((f.guarded e).call arguments).run (guardedWithin e evaluationDepth) s simulation) (fun _ => True)
      (Torn (∃ ts, arguments = .raw ts ∧ ∃ t ∈ ts, '\u212a' ∈ t)) := by
  have errors {torn : Prop} (err : EvalError) : Torn torn (.error err) := .inl ⟨err, rfl⟩
  cases arguments with
  | values vs => exact ((returning_guarded member e).values vs).ends errors fun _ no => no.elim
  | raw ts =>
    refine ((returning_guarded member e).texts ts).ends errors fun t inside => ?_
    exact (guardedWithin_ends e _ library.child simulation t).faults fun fault =>
      Or.imp_right (And.imp_right fun letter => ⟨ts, rfl, t, inside, letter⟩)

theorem call_unguarded {s : Scope} (library : s.HoldsLibrary) {f : Function} (member : f ∈ functions s.dialect)
    (e : EvalError) (simulation : Option Simulation) (arguments : Arguments) :
    (unguarded e).holds Eq ((f.call arguments).run (evaluateWithin evaluationDepth) s simulation)
      (((f.guarded e).call arguments).run (guardedWithin e evaluationDepth) s simulation) := by
  have inner (t : Text) := unguarded_within e evaluationDepth library.child simulation t
  cases arguments with
  | values vs => exact unguarded_call member e ((returning_guarded member e).values vs) fun t _ => inner t
  | raw ts => exact unguarded_call member e ((returning_guarded member e).texts ts) fun t _ => inner t

theorem derivatives_return {s : Scope} {f : Function} (member : f ∈ functions s.dialect) {vs : List Float}
    {derivatives : Eval World (List Float)} (given : s.derivatives? f vs = some derivatives) (world : World) :
    ∃ outcome after, Eval.Returns derivatives world outcome after := by
  obtain ⟨p, own, rfl⟩ := Option.map_eq_some_iff.mp given
  have ends : Eval.Ends (p.run (evaluateWithin evaluationDepth) s none) (fun _ => True) (Torn False) :=
    (returning_derivatives member own).ends (fun e => .inl ⟨e, rfl⟩) fun _ no => no.elim
  exact (returns_of_ends ends world).resolve_right fun torn => torn.1

/-- In a scope with the functions of the library, evaluations of texts, calls and derivatives of
these functions give a value, a list or an error, wherever no number is torn: `limit` with two
bounds that are no numbers is all that panics. Tables refer to points that there are, wherever a
search for a segment ends that finds the last point behind no other; and polynomials, which take
exactly the lists that can be cut so, to arguments that there are. -/
theorem calls_return (s : Scope) (library : s.HoldsLibrary) :
    (∀ e simulation t,
      PanicsInLimit ('\u212a' ∈ t) e (s.evaluate simulation t) (s.evaluateGuarded e simulation t)) ∧
    (∀ f ∈ functions s.dialect,
      (∀ e simulation arguments, PanicsInLimit (∃ ts, arguments = .raw ts ∧ ∃ t ∈ ts, '\u212a' ∈ t) e
        ((f.call arguments).run (evaluateWithin evaluationDepth) s simulation)
        (((f.guarded e).call arguments).run (guardedWithin e evaluationDepth) s simulation)) ∧
      (∀ vs derivatives, s.derivatives? f vs = some derivatives →
        ∀ world, ∃ outcome after, Eval.Returns derivatives world outcome after)) ∧
    (∀ x a b, limit x a b = .violated ↔ a.isNaN = true ∧ b.isNaN = true) ∧
    (∀ (table : Table Float) x behind, behind ≤ table.points.length →
      (behind = table.points.length → ∀ last ∈ table.points.getLast?, last.1 ≤ x) →
        (table.placeAt x behind).Within table.points.length) ∧
    (∀ vs dimension xs coefficients, vs.length ≤ 2 ^ 53 →
      (polynomialArguments vs = .ok (dimension, xs, coefficients) ↔ Cut vs dimension xs coefficients)) := by
  refine ⟨fun e simulation t => panicsInLimit (guardedWithin_ends e _ library simulation t)
    (unguarded_within e _ library simulation t), fun f member => ⟨fun e simulation arguments => ?_, fun vs derivatives given world => ?_⟩,
    fun x a b => ⟨fun violated => ?_, limit_eq_violated⟩, fun table x behind => table.placeAt_within x,
    fun vs dimension xs coefficients short => polynomialArguments_eq_ok_iff_cut short⟩
  · exact panicsInLimit (call_guarded_ends library member e simulation arguments)
      (call_unguarded library member e simulation arguments)
  · exact derivatives_return member given world
  · by_contra number
    have returning : (limit x a b).Returning fun _ => False := returning_limit number
    rw [violated] at returning
    exact returning

/-- The standard scope holds the library. A lookup between two points refers to both of them. -/
theorem calls_return_standard :
    (Scope.standard .spice3f5).HoldsLibrary ∧
      PanicsInLimit ('\u212a' ∈ chars "limit(1k,0,2)") .empty
        ((Scope.standard .spice3f5).evaluate none (chars "limit(1k,0,2)"))
        ((Scope.standard .spice3f5).evaluateGuarded .empty none (chars "limit(1k,0,2)")) ∧
      ((Table.mk [((1 : Float), (10 : Float)), (3, 30)]).placeAt 2 1).Within 2 :=
  have returns := calls_return (Scope.standard .spice3f5) (Scope.holdsLibrary_standard .spice3f5)
  ⟨Scope.holdsLibrary_standard .spice3f5, returns.1 .empty none (chars "limit(1k,0,2)"),
    returns.2.2.2.1 (Table.mk [(1, 10), (3, 30)]) 2 1 (by decide) (by decide)⟩

/-- Where a number is torn, an evaluation panics without any call of `limit`. -/
theorem not_calls_return :
    ¬ ∀ s : Scope, s.HoldsLibrary → ∀ e simulation t,
      PanicsInLimit False e (s.evaluate simulation t) (s.evaluateGuarded e simulation t) := by
  intro all
  have panics := all (Scope.standard .spice3f5) (Scope.holdsLibrary_standard .spice3f5) .empty none (chars "1\u212a")
  rcases panics.returns {} with ⟨outcome, after, returned⟩ | ⟨no, -⟩
  · have returned := congrArg Prod.fst returned.apply
    have violated : ((Scope.standard .spice3f5).evaluateGuarded .empty none (chars "1\u212a") {}).1 = .error .violated := by
      decide +kernel
    rw [violated] at returned
    cases outcome <;> cases returned
  · exact no

end Library

end Netlist
