import Netlist.Expression.Machine
import Netlist.Expression.Scope

/-!
Evaluation in a scope. Functions may evaluate further texts. A text that is shorter than the one
it comes from, such as the text of an argument, can be followed however deep the nesting; any
other text takes one unit of a depth that bounds functions that call each other without end.
-/
namespace Netlist

/-- How values are found for texts, over states of a kind. -/
abbrev Evaluator (σ : Type) := Scope → Option Simulation → Text → Eval σ Float

/-- How values are found for texts that functions evaluate. -/
abbrev Nested := Evaluator World

def Program.run {α : Type} (nested : Nested) (scope : Scope) (simulation : Option Simulation) :
    Program α → Eval World α
  | done a => return a
  | fail e => Eval.raise e
  | violated => throw .violated
  | parameter name next => (next (scope.parameter? name)).run nested scope simulation
  | evaluate bindings t next => do
    let outcome ← (nested (scope.child bindings) simulation t).attempt
    (next outcome).run nested scope simulation
  | draw next => do
    let world ← get
    let (number, generator) := world.generator.next
    set { world with generator }
    (next number).run nested scope simulation
  | .simulation next => (next simulation).run nested scope simulation
  | note e next => do
    modify fun world => { world with events := world.events ++ [e] }
    next.run nested scope simulation

/-- The meaning of names in a scope. Constants step in for parameters that are not defined. -/
def Scope.resolver (scope : Scope) (nested : Nested) (simulation : Option Simulation) : Resolver World where
  parameter name expression :=
    match (scope.parameter? name).or (constant? name) with
    | some v => return v
    | none => Eval.raise (.unknownParameter name expression)
  function? := scope.function?
  operators := scope.operators
  call f arguments := (f.call arguments).run nested scope simulation
  unknown name expression := Eval.raise (.unknownFunction name expression)
  note _ := return

namespace Evaluator
variable {σ : Type}

/-- Evaluation of texts of less than the given length; other texts are left to `outer`. A text is
evaluated by `step`, given how the texts nested in it are. -/
def shorter (step : Evaluator σ → Evaluator σ) (outer : Evaluator σ) : Nat → Evaluator σ
  | 0 => outer
  | bound + 1 => fun scope simulation t =>
    if t.length ≤ bound then
      let nested : Evaluator σ := fun scope simulation inner =>
        if inner.length < t.length then shorter step outer bound scope simulation inner
        else outer scope simulation inner
      step nested scope simulation t
    else outer scope simulation t

/-- Evaluation with a number of levels for texts that are not shorter than where they come from. -/
def within (step : Evaluator σ → Evaluator σ) : Nat → Evaluator σ
  | 0 => fun _ _ _ => throw .exhausted
  | depth + 1 => fun scope simulation t => shorter step (within step depth) (t.length + 1) scope simulation t

end Evaluator

def evaluateWithin : Nat → Nested :=
  Evaluator.within fun nested scope simulation t => Machine.run (scope.resolver nested simulation) t

/-- How deeply functions may evaluate texts that are not part of the text that calls them. -/
def evaluationDepth : Nat := 1000

/-- The value of a text in a scope, with or without a simulation. -/
def Scope.evaluate (scope : Scope) (simulation : Option Simulation) (t : Text) : Eval World Float :=
  evaluateWithin evaluationDepth scope simulation t

def Scope.call (scope : Scope) (f : Function) (arguments : Arguments) : Eval World Float :=
  (f.call arguments).run (evaluateWithin evaluationDepth) scope none

def Scope.derivatives? (scope : Scope) (f : Function) (vs : List Float) : Option (Eval World (List Float)) :=
  (f.derivatives? vs).map fun p => p.run (evaluateWithin evaluationDepth) scope none

end Netlist
