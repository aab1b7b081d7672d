import Netlist.Expression.Error
import Netlist.Random.Generator

/-!
What functions do. The body of a function is a tree of the effects it asks its caller for: look
up a parameter, evaluate a text, draw a random number, consult the simulation, leave a record. A
tree is run by structural recursion, so a body always ends unless a nested evaluation does not.
-/
namespace Netlist

/-- What functions of the host record when they run. -/
inductive Event where
  | called (name : Text) (arguments : List Float)
  | calledRaw (name : Text) (arguments : List Text)
  | refreshed (label : Text) (value : Float)
  deriving Repr

/-- The handle to a running simulation: its quantities by name. -/
abbrev Simulation := List (Text × Float)

/-- The part of the surroundings that evaluations change: the generator shared by a chain of
scopes, and the records. -/
structure World where
  generator : Generator := {}
  events : List Event := []

/-- A tree of effects that ends with a value. -/
inductive Program (α : Type) where
  | done (value : α)
  | fail (e : EvalError)
  /-- A precondition is violated. -/
  | violated
  /-- The value of a parameter visible to the caller. -/
  | parameter (name : Text) (next : Option Float → Program α)
  /-- The value of a text in a child of the calling scope that holds the given parameters. -/
  | evaluate (bindings : List (Text × Float)) (t : Text) (next : Except EvalError Float → Program α)
  /-- The next random number. -/
  | draw (next : UInt64 → Program α)
  /-- The handle to the simulation, if the evaluation has one. -/
  | simulation (next : Option Simulation → Program α)
  | note (e : Event) (next : Program α)

namespace Program
variable {α β : Type}

def bind : Program α → (α → Program β) → Program β
  | done a, k => k a
  | fail e, _ => fail e
  | violated, _ => violated
  | parameter name next, k => parameter name fun v => (next v).bind k
  | evaluate bindings t next, k => evaluate bindings t fun v => (next v).bind k
  | draw next, k => draw fun n => (next n).bind k
  | simulation next, k => simulation fun s => (next s).bind k
  | note e next, k => note e (next.bind k)

instance : Monad Program where
  pure := done
  bind := bind

def value (bindings : List (Text × Float)) (t : Text) : Program Float :=
  evaluate bindings t fun
    | .ok v => done v
    | .error e => fail e

def values : List Text → Program (List Float)
  | [] => done []
  | t :: rest => do
    let v ← value [] t
    return v :: (← values rest)

end Program

end Netlist
