import Netlist.Expression.Evaluation
import Netlist.Expression.Host
import Netlist.Proofs.Expression.Computation
import Netlist.Proofs.Library.Kinds

/-!
The errors that functions tell of themselves, apart from those of the texts that they evaluate. No function of the
library, and none that a host describes by data, tells of a text that cannot stand where it stands.
-/
namespace Netlist

/-- Whether an error that names an unexpected text gives the place at which that text stands in the expression. -/
def EvalError.InPlace : EvalError → Prop
  | .unexpectedText found offset expression => ∃ before rest, expression = before ++ found ++ rest ∧ offset = byteSize before
  | _ => True

/-- Whether a program tells no other errors than those of a kind. It may hand on the error of a text. -/
def Program.Tells {α : Type} (own : EvalError → Prop) : Program α → Prop
  | done _ | violated => True
  | fail e => own e
  | parameter _ next => ∀ v, (next v).Tells own
  | evaluate _ _ next => ∀ outcome, (next outcome).Tells fun e => own e ∨ outcome = .error e
  | draw next => ∀ n, (next n).Tells own
  | simulation next => ∀ s, (next s).Tells own
  | note _ next => next.Tells own

def Function.Tells (own : EvalError → Prop) (f : Function) : Prop := ∀ arguments, (f.call arguments).Tells own

namespace Program
variable {α β : Type} {own own' : EvalError → Prop}

theorem Tells.mono {p : Program α} (tells : p.Tells own) (weaker : ∀ e, own e → own' e) : p.Tells own' := by
  induction p generalizing own own' with
  | done | violated => trivial
  | fail e => exact weaker e tells
  | parameter name next ih => exact fun v => ih v (tells v) weaker
  | evaluate bindings t next ih => exact fun outcome => ih outcome (tells outcome) fun e => Or.imp_left (weaker e)
  | draw next ih => exact fun n => ih n (tells n) weaker
  | simulation next ih => exact fun s => ih s (tells s) weaker
  | note e next ih => exact ih tells weaker

theorem Tells.bind {p : Program α} {k : α → Program β} (first : p.Tells own) (next : ∀ a, (k a).Tells own) :
    (p >>= k).Tells own := by
  change (p.bind k).Tells own
  induction p generalizing own with
  | done a => exact next a
  | fail e => exact first
  | violated => trivial
  | parameter name rest ih => exact fun v => ih v (first v) next
  | evaluate bindings t rest ih => exact fun outcome => ih outcome (first outcome) fun a => (next a).mono fun _ => .inl
  | draw rest ih => exact fun n => ih n (first n) next
  | simulation rest ih => exact fun s => ih s (first s) next
  | note e rest ih => exact ih first next

theorem tells_value (bindings : List (Text × Float)) (t : Text) : (value bindings t).Tells own := by
  intro outcome
  cases outcome with
  | ok v => trivial
  | error e => exact .inr rfl

theorem tells_values (ts : List Text) : (values ts).Tells own := by
  induction ts with
  | nil => trivial
  | cons t ts ih => exact (tells_value [] t).bind fun _ => ih.bind fun _ => trivial

/-- A program fails with an error of its own, or as a text does that it evaluates. -/
theorem Tells.run_fails {nested : Nested} {scope : Scope} {simulation : Option Simulation} {e : EvalError} {w w' : World}
    {p : Program α} (tells : p.Tells own) (failed : p.run nested scope simulation w = (.error (.error e), w')) :
    own e ∨ ∃ bindings t v v', nested (scope.child bindings) simulation t v = (.error (.error e), v') := by
  induction p generalizing w own with
  | done | violated => cases failed
  | fail e =>
    cases failed
    exact .inl tells
  | parameter name next ih => exact ih _ (tells _) failed
  | evaluate bindings t next ih =>
    dsimp only [run] at failed
    rw [Eval.bind_apply, Eval.attempt_apply] at failed
    rcases inner : nested (scope.child bindings) simulation t w with ⟨(e' | _ | _) | v, after⟩
    all_goals rw [inner] at failed
    · rcases ih _ (tells _) failed with (ours | same) | handed_on
      · exact .inl ours
      · cases same
        exact .inr ⟨bindings, t, w, after, inner⟩
      · exact .inr handed_on
    · cases failed
    · cases failed
    · rcases ih _ (tells _) failed with (ours | same) | handed_on
      · exact .inl ours
      · cases same
      · exact .inr handed_on
  | draw next ih => exact ih _ (tells _) failed
  | simulation next ih => exact ih _ (tells _) failed
  | note event next ih => exact ih tells failed

theorem Direct.tells {draws : Prop} {p : Program α} (direct : p.Direct draws) : p.Tells EvalError.InPlace := by
  induction p with
  | done => trivial
  | fail e =>
    cases e with
    | unexpectedText => exact direct.elim
    | _ => trivial
  | draw next ih => exact fun n => ih n (direct.2 n)
  | violated | parameter | evaluate | simulation | note => exact direct.elim

end Program

namespace Function
variable {f : Function}

theorem Direct.tells {draws : Prop} (direct : f.Direct draws) : f.Tells EvalError.InPlace := by
  intro arguments
  cases arguments with
  | values vs => exact (direct.values vs).tells
  | raw ts =>
    obtain ⟨e, refused, own⟩ := direct.texts ts
    rw [refused]
    exact own.tells

theorem tells_of_values {body : List Float → Program Float} (logic : f.logic = .evaluated body)
    (tells : ∀ vs, (body vs).Tells EvalError.InPlace) : f.Tells EvalError.InPlace := by
  intro arguments
  unfold call
  rw [logic]
  split
  · trivial
  · cases arguments with
    | values vs => exact tells vs
    | raw ts => trivial

theorem tells_of_texts {body : List Text → Program Float} (logic : f.logic = .raw body)
    (tells : ∀ ts, (body ts).Tells EvalError.InPlace) : f.Tells EvalError.InPlace := by
  intro arguments
  unfold call
  rw [logic]
  split
  · trivial
  · cases arguments with
    | values vs => trivial
    | raw ts => exact tells ts

end Function

namespace Library

theorem tells_limit (x a b : Float) : (limit x a b).Tells EvalError.InPlace := by
  unfold limit
  dsimp only
  split <;> trivial

theorem tells_limitFunction : limitFunction.Tells EvalError.InPlace := by
  refine Function.tells_of_values rfl fun vs => ?_
  split
  · exact tells_limit _ _ _
  · trivial

theorem tells_definedFunction : definedFunction.Tells EvalError.InPlace := by
  refine Function.tells_of_texts rfl fun ts => ?_
  split
  · exact fun _ => trivial
  · trivial

theorem tells_lazyFunction : lazyFunction.Tells EvalError.InPlace := by
  refine Function.tells_of_texts rfl fun ts => ?_
  split
  · exact Program.tells_value _ _
  · trivial

theorem tells_tableFunction : tableFunction.Tells EvalError.InPlace := by
  refine Function.tells_of_texts rfl fun ts => ?_
  split
  · trivial
  · exact (Program.tells_values ts).bind fun vs => by cases vs <;> trivial

/-- No function of the library tells of an unexpected text. -/
theorem tells {d : Dialect} {f : Function} (member : f ∈ functions d) : f.Tells EvalError.InPlace := by
  cases kind_of_mem member with
  | table => exact tells_tableFunction
  | lazy => exact tells_lazyFunction
  | defined => exact tells_definedFunction
  | limit => exact tells_limitFunction
  | constant direct | random _ direct => exact direct.tells

end Library

/-- No function that a host describes by data tells of an unexpected text. -/
theorem Host.tells (name : Text) (arity : Arity) (isOperator : Bool) (body : Body) (slope : Option Float) :
    (Host.function name arity isOperator body slope).Tells EvalError.InPlace := by
  have logic : (Host.function name arity isOperator body slope).logic = body.logic name := by
    unfold Host.function
    dsimp only
    split <;> rfl
  cases body with
  | constant | digits | fail => exact Function.tells_of_values logic fun _ => trivial
  | expression t => exact Function.tells_of_values logic fun vs => Program.tells_value (numbered vs) t
  | rawCount | rawFail => exact Function.tells_of_texts logic fun _ => trivial
  | rawDigits => exact Function.tells_of_texts logic fun ts => (Program.tells_values ts).bind fun _ => trivial
  | rawQuantity => exact Function.tells_of_texts logic fun _ s => by cases s <;> trivial

end Netlist
