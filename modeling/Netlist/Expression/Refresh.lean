import Netlist.Expression.Evaluation
import Netlist.Expression.FreeNames

/-!
Setting parameters. A parameter that is set has every dynamic expression of its scope that reads
it evaluated again and its callback run, in the order of registration; callbacks may set further
parameters. An expression whose callback is running is passed over, so a callback never runs
inside itself and cycles come to an end.

`Session.refresh` visits the expressions that a parameter affects, `Session.run` performs the
operations of a callback, and `Session.setWithin` ties the two together up to a depth of nesting.
-/
namespace Netlist

/-- A scope with the world its evaluations change. -/
structure Session where
  scope : Scope
  world : World := {}

abbrev Update := Eval Session

namespace Session

def evaluating {α : Type} (evaluation : Scope → Eval World α) : Update α := fun s =>
  let (outcome, world) := evaluation s.scope s.world
  (outcome, { s with world })

def changing (f : Scope → Scope) : Update Unit := modify fun s => { s with scope := f s.scope }

def evaluate (t : Text) : Update Float := evaluating fun scope => scope.evaluate none t

def readsOf (t : Text) : Update (List Text) := fun s =>
  match s.scope.freeNames t with
  | .ok names => (.ok names.parameters, s)
  | .error fault => (.error fault, s)

def register (t : Text) (reads : List Text) (callback : Float → Script) : Update Unit :=
  changing (·.register { text := t, reads := reads.map foldCase, callback })

/-- Marks the callback of a registration as running or not. -/
def mark (index : Nat) (running : Bool) : Update Unit :=
  changing fun scope => { scope with frame := { scope.frame with
    registrations := scope.frame.registrations.modify index ({ · with running }) } }

/-- Defines a parameter by an expression: it is evaluated and stored, and evaluated again whenever
a parameter that it reads is set. -/
def deriveBy (set : Text → Float → Update Unit) (name t : Text) : Update Float := do
  let value ← evaluate t
  let reads ← readsOf t
  set name value
  register t reads (Script.assign name)
  return value

/-- Performs the operations of a script; `set` sets a parameter. -/
def run (set : Text → Float → Update Unit) : Script → Update Unit
  | .done => return
  | .fail e => Eval.raise e
  | .note e next => do
    modify fun s => { s with world := { s.world with events := s.world.events ++ [e] } }
    run set next
  | .parameter name next => do run set (next ((← get).scope.parameter? name))
  | .evaluate t next => do run set (next (← (evaluate t).attempt))
  | .set name value next => do run set (next (← (set name value).attempt))
  | .derive name t next => do run set (next (← (deriveBy set name t).attempt))
  | .watch t reads callback next => do
    register t reads callback
    run set next
  | .define f next => do
    changing (·.define f)
    run set next

/-- Evaluates one dynamic expression and runs its callback, unless that is running. The mark is
taken back when the callback ends, with or without an error; a violated precondition leaves it. -/
def refreshOne (set : Text → Float → Update Unit) (index : Nat) : Update Unit := do
  match (← get).scope.frame.registrations[index]? with
  | none => return
  | some r =>
    if r.running then return
    else
      mark index true
      let body : Update Unit := do run set (r.callback (← evaluate r.text))
      let outcome ← body.attempt
      mark index false
      Eval.ofExcept outcome

def refresh (set : Text → Float → Update Unit) : List Nat → Update Unit
  | [] => return
  | index :: rest => do
    refreshOne set index
    refresh set rest

def affected (scope : Scope) (name : Text) : List Nat :=
  (scope.frame.registrations.zipIdx.filter (·.1.readsName name)).map (·.2)

/-- Sets a parameter, with a bound on how deep callbacks nest. -/
def setWithin : Nat → Text → Float → Update Unit
  | 0, _, _ => throw .exhausted
  | depth + 1, name, value => do
    changing (·.store name value)
    refresh (setWithin depth) (affected (← get).scope name)

/-- How many registrations callbacks may add and nest in one another beyond those there are. -/
def spareDepth : Nat := 1000

/-- How deep callbacks may nest: a callback never runs inside itself. -/
def depth (s : Session) : Nat := s.scope.frame.registrations.length + 1 + spareDepth

def set (name : Text) (value : Float) : Update Unit := do setWithin (← get).depth name value

def derive (name t : Text) : Update Float := do deriveBy (setWithin (← get).depth) name t

end Session

end Netlist
