import Netlist.Proofs.Expression.Nesting
import Netlist.Proofs.Expression.Parametric

/-!
Evaluation with a record of what it looks up and calls. The record changes nothing: without it the
evaluation is the ordinary one (`Scope.observe_erases`), and it only grows.
-/
namespace Netlist

inductive Occurrence where
  | parameter (name : Text)
  | call (f : Function)
  | builtin (name : Text)
  | unknown (name : Text)

abbrev Trace := List Occurrence

namespace Trace

def parameters (trace : Trace) : List Text := trace.filterMap fun
  | .parameter name => some name
  | _ => none

def calls (trace : Trace) : List Function := trace.filterMap fun
  | .call f => some f
  | _ => none

def functions (trace : Trace) : List Text := trace.filterMap fun
  | .call f => some f.name
  | .builtin name | .unknown name => some name
  | .parameter _ => none

theorem mem_functions {trace : Trace} {f : Function} (called : f ∈ trace.calls) : f.name ∈ trace.functions := by
  obtain ⟨occurrence, member, same⟩ := List.mem_filterMap.mp called
  cases occurrence with
  | call g => exact List.mem_filterMap.mpr ⟨_, member, congrArg (Option.map Function.name) same⟩
  | parameter | builtin | unknown => cases same

end Trace

abbrev Observed := World × Trace

def record (occurrence : Occurrence) : Eval Observed Unit := modify fun (world, trace) => (world, trace ++ [occurrence])

def Program.observe {α : Type} (nested : Evaluator Observed) (scope : Scope) (simulation : Option Simulation) :
    Program α → Eval Observed α
  | done a => return a
  | fail e => Eval.raise e
  | violated => throw .violated
  | parameter name next => do
    record (.parameter name)
    (next (scope.parameter? name)).observe nested scope simulation
  | evaluate bindings t next => do
    let outcome ← (nested (scope.child bindings) simulation t).attempt
    (next outcome).observe nested scope simulation
  | draw next => do
    let (world, trace) ← get
    let (number, generator) := world.generator.next
    set (({ world with generator }, trace) : Observed)
    (next number).observe nested scope simulation
  | .simulation next => (next simulation).observe nested scope simulation
  | note e next => do
    modify fun (world, trace) => ({ world with events := world.events ++ [e] }, trace)
    next.observe nested scope simulation

namespace Scope

def observer (scope : Scope) (nested : Evaluator Observed) (simulation : Option Simulation) : Resolver Observed where
  parameter name expression := do
    record (.parameter name)
    match (scope.parameter? name).or (constant? name) with
    | some v => return v
    | none => Eval.raise (.unknownParameter name expression)
  function? := scope.function?
  operators := scope.operators
  call f arguments := do
    record (.call f)
    (f.call arguments).observe nested scope simulation
  unknown name expression := do
    record (.unknown name)
    Eval.raise (.unknownFunction name expression)
  note name := record (.builtin name)

end Scope

def observeWithin : Nat → Evaluator Observed :=
  Evaluator.within fun nested scope simulation t => Machine.run (scope.observer nested simulation) t

def observedIn (depth : Nat) (t : Text) : Evaluator Observed := fun scope simulation inner =>
  observeWithin (if inner.length < t.length then depth + 1 else depth) scope simulation inner

theorem observeWithin_succ (depth : Nat) (scope : Scope) (simulation : Option Simulation) (t : Text) :
    observeWithin (depth + 1) scope simulation t = Machine.run (scope.observer (observedIn depth t) simulation) t :=
  Evaluator.within_succ depth scope simulation t

namespace Scope

def observe (scope : Scope) (simulation : Option Simulation) (t : Text) : Eval Observed Float :=
  observeWithin evaluationDepth scope simulation t

def trace (scope : Scope) (simulation : Option Simulation) (t : Text) (world : World) : Trace :=
  (scope.observe simulation t (world, [])).2.2

end Scope

end Netlist
