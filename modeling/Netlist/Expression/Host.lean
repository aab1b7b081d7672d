import Netlist.Expression.Scope

/-!
Functions and callbacks described by data, for a host that cannot supply programs of its own.
Every one of them records that it runs.
-/
namespace Netlist.Host

inductive Body where
  | constant (v : Float)
  /-- The arguments as digits of a number, as far as they are digits. -/
  | digits
  /-- The value of a text over parameters `a0`, `a1` and so on that hold the arguments. -/
  | expression (t : Text)
  | fail (message : Text)
  /-- The number of arguments, none of which is evaluated. -/
  | rawCount
  /-- The values of the arguments as digits of a number. -/
  | rawDigits
  /-- The quantity of the simulation that the arguments name. -/
  | rawQuantity
  | rawFail (message : Text)

def digitsValue (vs : List Float) : Float := vs.foldl (fun n v => n * 10 + v) 0

def numbered (vs : List Float) : List (Text × Float) :=
  vs.zipIdx.map fun (v, index) => ('a' :: Nat.toDigits 10 index, v)

/-- The quantity that the arguments name, zero if the simulation has none of that name. -/
def quantity (name : Text) (ts : List Text) : Option Simulation → Program Float
  | none => .fail (.function name (chars "no simulation"))
  | some quantities => .done (((quantities.find? (·.1 == joined [','] ts)).map (·.2)).getD 0)

def Body.logic (name : Text) (body : Body) : Logic :=
  let evaluated (f : List Float → Program Float) : Logic := .evaluated fun vs => .note (.called name vs) (f vs)
  let raw (f : List Text → Program Float) : Logic := .raw fun ts => .note (.calledRaw name ts) (f ts)
  match body with
  | constant v => evaluated fun _ => .done v
  | digits => evaluated fun vs => .done (digitsValue vs)
  | expression t => evaluated fun vs => .value (numbered vs) t
  | fail message => evaluated fun _ => .fail (.function name message)
  | rawCount => raw fun ts => .done (Float.ofNat ts.length)
  | rawDigits => raw fun ts => do return digitsValue (← Program.values ts)
  | rawQuantity => raw fun ts => .simulation (quantity name ts)
  | rawFail message => raw fun _ => .fail (.function name message)

/-- A function with the given body; `slope`, if given, times an argument is the derivative with
respect to it. -/
def function (name : Text) (arity : Arity) (isOperator : Bool) (body : Body) (slope : Option Float) : Function :=
  let f : Function := {
    name, arity, logic := body.logic name
    derivative := slope.map fun d vs => .done (vs.map (d * ·)) }
  if isOperator then f.asOperator else f

inductive Reaction where
  /-- Stores the value. -/
  | set (name : Text)
  /-- Stores the value of a text. -/
  | setTo (name t : Text)
  /-- Defines a parameter by a text. -/
  | derive (name t : Text)
  | fail

/-- What follows an operation: an error ends the script. -/
def orFail {α : Type} (next : α → Script) : Except EvalError α → Script
  | .ok a => next a
  | .error e => .fail e

def reactions (label : Text) (value : Float) : List Reaction → Script
  | [] => .done
  | .set name :: rest => .set name value (orFail fun _ => reactions label value rest)
  | .setTo name t :: rest =>
    .evaluate t (orFail fun v => .set name v (orFail fun _ => reactions label value rest))
  | .derive name t :: rest => .derive name t (orFail fun _ => reactions label value rest)
  | .fail :: _ => .fail (.function label (chars "callback failed"))

def callback (label : Text) (steps : List Reaction) (value : Float) : Script :=
  .note (.refreshed label value) (reactions label value steps)

end Netlist.Host
