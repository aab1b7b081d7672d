import Netlist.Expression.Dialect
import Netlist.Expression.Function
import Netlist.Text.CaseFold

/-!
Scopes: a frame of definitions and the frames around it. A name that a frame does not define is
looked up in the frames around it, and definitions go to the innermost frame. Names are equal if
their full case foldings are.

A scope also holds the dynamic expressions registered in it. What such an expression does with
its new values is a `Script`, a tree of the operations it performs on the scope.
-/
namespace Netlist

/-- Definitions by folded name, in the order of their first definition. -/
abbrev Named (α : Type) := List (Text × α)

namespace Named
variable {α : Type}

def get? (named : Named α) (name : Text) : Option α :=
  (named.find? (·.1 == foldCase name)).map (·.2)

def replace (key : Text) (a : α) : Named α → Named α
  | [] => [(key, a)]
  | (k, b) :: rest => if k == key then (key, a) :: rest else (k, b) :: replace key a rest

def insert (named : Named α) (name : Text) (a : α) : Named α := named.replace (foldCase name) a

end Named

/-- A tree of operations on a scope. Each operation hands its outcome on, so that a script may go
on after an error. -/
inductive Script where
  | done
  | fail (e : EvalError)
  | note (e : Event) (next : Script)
  | parameter (name : Text) (next : Option Float → Script)
  /-- Evaluates a text in the scope. -/
  | evaluate (t : Text) (next : Except EvalError Float → Script)
  /-- Sets a parameter, with all that follows from it. -/
  | set (name : Text) (value : Float) (next : Except EvalError Unit → Script)
  /-- Defines a parameter by an expression that keeps it up to date. -/
  | derive (name t : Text) (next : Except EvalError Float → Script)
  /-- Registers a dynamic expression. -/
  | watch (t : Text) (reads : List Text) (callback : Float → Script) (next : Script)
  | define (f : Function) (next : Script)

namespace Script

def assign (name : Text) (value : Float) : Script :=
  set name value fun
    | .ok _ => done
    | .error e => fail e

end Script

/-- A dynamic expression: it is evaluated again whenever a parameter it reads is set. -/
structure Registration where
  text : Text
  /-- The folded names of the parameters it reads. -/
  reads : List Text
  callback : Float → Script
  running : Bool := false

def Registration.readsName (r : Registration) (name : Text) : Bool := r.reads.contains (foldCase name)

/-- What one scope defines. -/
structure Frame where
  parameters : Named Float := []
  functions : Named Function := []
  registrations : List Registration := []

/-- A frame with the frames around it, innermost first. -/
structure Scope where
  dialect : Dialect
  frame : Frame := {}
  ancestors : List Frame := []

namespace Scope

def frames (s : Scope) : List Frame := s.frame :: s.ancestors

def parameter? (s : Scope) (name : Text) : Option Float := s.frames.findSome? (·.parameters.get? name)

def defines (s : Scope) (name : Text) : Bool := (s.parameter? name).isSome

def function? (s : Scope) (name : Text) : Option Function := s.frames.findSome? (·.functions.get? name)

/-- The functions that frames define, without those that an inner frame has under the same name. -/
def visible (seen : List Text) : List Frame → List Function
  | [] => []
  | frame :: rest =>
    let fresh := frame.functions.filter (!seen.contains ·.1)
    fresh.map (·.2) ++ visible (fresh.map (·.1) ++ seen) rest

def operators (s : Scope) : List Function := (visible [] s.frames).filter (·.isOperator)

/-- The scope with a parameter stored; nothing follows from it. -/
def store (s : Scope) (name : Text) (value : Float) : Scope :=
  { s with frame := { s.frame with parameters := s.frame.parameters.insert name value } }

def define (s : Scope) (f : Function) : Scope :=
  { s with frame := { s.frame with functions := s.frame.functions.insert f.name f } }

def register (s : Scope) (r : Registration) : Scope :=
  { s with frame := { s.frame with registrations := s.frame.registrations ++ [r] } }

def child (s : Scope) (bindings : List (Text × Float)) : Scope :=
  let inner : Scope := { dialect := s.dialect, ancestors := s.frames }
  bindings.foldl (fun inner (name, value) => inner.store name value) inner

def parent? (s : Scope) : Option Scope :=
  match s.ancestors with
  | [] => none
  | frame :: ancestors => some { s with frame, ancestors }

def empty (dialect : Dialect) : Scope := { dialect }

end Scope

end Netlist
