import Mathlib.Logic.Function.Basic
import Netlist.Proofs.Expression.Containment

/-!
A scope with children, their children, and so on. Whatever is done to its descendants, in whatever order, the
scope is what it was, what is registered in it has no part in what happens, and of all that happened an
evaluation in it can see no more than the state of the generator.
-/
namespace Netlist

def Scope.holding (around : Scope) (frame : Frame) : Scope := { around with frame, ancestors := around.frames }

inductive Action where
  | set (name : Text) (value : Float)
  | derive (name t : Text)
  | watch (t : Text) (reads : List Text) (callback : Float → Script)
  | define (f : Function)
  | evaluate (simulation : Option Simulation) (t : Text)
  | call (f : Function) (arguments : Arguments)
  | seed (number : UInt64)

namespace Action

/-- Performs an action; the value is that of a text or call, if the action has one. -/
def perform : Action → Update (Option Float)
  | set name value => do
    Session.set name value
    return none
  | derive name t => some <$> Session.derive name t
  | watch t reads callback => do
    Session.register t reads callback
    return none
  | define f => do
    Session.changing (·.define f)
    return none
  | evaluate simulation t => some <$> Session.evaluating (·.evaluate simulation t)
  | call f arguments => some <$> Session.evaluating (·.call f arguments)
  | seed number => do
    modify fun s => { s with world := { s.world with generator := { seed := number } } }
    return none

open Session in
theorem contained (action : Action) : Contained action.perform := by
  cases action with
  | set name value => exact (contained_set name value).bind fun _ => .pure none
  | derive name t => exact (contained_derive name t).bind fun v => .pure (some v)
  | watch t reads callback => exact (contained_register t reads callback).bind fun _ => .pure none
  | define f => exact (contained_define f).bind fun _ => .pure none
  | evaluate simulation t => exact (Contained.evaluating fun same => same.evaluate simulation t).bind fun v => .pure (some v)
  | call f arguments => exact (Contained.evaluating fun same => same.call f arguments).bind fun v => .pure (some v)
  | seed number =>
    exact (Contained.ofWorld fun world => { world with generator := { seed := number } }).bind fun _ => .pure none

end Action

/-- The way to a scope among the descendants of another one, from the last child back to the first. -/
abbrev Address := List Nat

/-- A scope, the frames of its descendants, and the world that all of them share. -/
structure Nest where
  outer : Scope
  frames : Address → Option Frame
  world : World

namespace Nest

def setFrame (n : Nest) (address : Address) (frame : Frame) : Nest :=
  { n with frames := Function.update n.frames address (some frame) }

def scope? (n : Nest) : Address → Option Scope
  | [] => some n.outer
  | i :: around =>
    match n.scope? around, n.frames (i :: around) with
    | some scope, some frame => some (scope.holding frame)
    | _, _ => none

/-- The nest once a scope has been changed at an address. All frames that the scope holds are taken over, those of
the scopes around it as well. -/
def put (n : Nest) : Address → Scope → Nest
  | [], scope => { n with outer := scope }
  | i :: around, scope =>
    match scope.parent? with
    | some parent => (n.setFrame (i :: around) scope.frame).put around parent
    | none => n.setFrame (i :: around) scope.frame

def without (n : Nest) (address : Address) : Nest :=
  { n with frames := fun a => if address <:+ a then none else n.frames a }

inductive Deed where
  | make (around : Address) (child : Nat)
  | drop (around : Address) (child : Nat)
  | act (around : Address) (child : Nat) (action : Action)

/-- Performs a deed, and says how an action has ended. There is nothing to do where a scope is missing. -/
def perform (n : Nest) : Deed → Option (Except Fault (Option Float)) × Nest
  | .make around child =>
    match n.scope? around with
    | none => (none, n)
    | some scope => (none, (n.without (child :: around)).setFrame (child :: around) (scope.child []).frame)
  | .drop around child => (none, n.without (child :: around))
  | .act around child action =>
    match n.scope? (child :: around) with
    | none => (none, n)
    | some scope =>
      let ended := action.perform ⟨scope, n.world⟩
      (some ended.1, { n.put (child :: around) ended.2.scope with world := ended.2.world })

def performAll (n : Nest) : List Deed → List (Option (Except Fault (Option Float))) × Nest
  | [] => ([], n)
  | deed :: deeds =>
    let (outcome, n) := n.perform deed
    let (outcomes, n) := n.performAll deeds
    (outcome :: outcomes, n)

def alone (outer : Scope) (world : World) : Nest := ⟨outer, fun _ => none, world⟩

variable {n n' : Nest} {a around : Address} {child : Nat} {scope : Scope}

/-! ### Where changes go -/

theorem scope?_child (found : n.scope? (child :: a) = some scope) :
    ∃ around frame, n.scope? a = some around ∧ n.frames (child :: a) = some frame ∧ scope = around.holding frame := by
  rw [scope?] at found
  split at found
  · next around frame outside own =>
    exact ⟨around, frame, outside, own, (Option.some.inj found).symm⟩
  · cases found

theorem setFrame_frames (n : Nest) {b : Address} (frame : Frame) (apart : a ≠ b) :
    (n.setFrame b frame).frames a = n.frames a :=
  Function.update_of_ne apart _ _

theorem setFrame_self (n : Nest) {frame : Frame} (own : n.frames a = some frame) : n.setFrame a frame = n := by
  rw [setFrame, ← own, Function.update_eq_self]

theorem scope?_setFrame {b : Address} (frame : Frame) (shorter : a.length < b.length) :
    (n.setFrame b frame).scope? a = n.scope? a := by
  induction a with
  | nil => rfl
  | cons i a ih =>
    have apart : i :: a ≠ b := by
      rintro rfl
      exact Nat.lt_irrefl _ shorter
    rw [scope?, scope?, ih (Nat.lt_of_succ_lt shorter), n.setFrame_frames frame apart]

theorem put_scope? (found : n.scope? a = some scope) : n.put a scope = n := by
  induction a generalizing scope with
  | nil =>
    obtain rfl := Option.some.inj found
    rfl
  | cons i a ih =>
    obtain ⟨around, frame, outside, own, rfl⟩ := scope?_child found
    -- The frame that is taken over first is the one there already; then those around it follow.
    change (n.setFrame (i :: a) frame).put a around = n
    rw [n.setFrame_self own]
    exact ih outside

/-- A change of the innermost frame of a scope goes to this frame alone. -/
theorem put_holding (outside : n.scope? a = some scope) (frame : Frame) :
    n.put (child :: a) (scope.holding frame) = n.setFrame (child :: a) frame :=
  put_scope? ((scope?_setFrame frame (Nat.lt_succ_self _)).trans outside)

/-- An action at an address changes the frame there, and the world. -/
theorem perform_act (action : Action) (found : n.scope? (child :: around) = some scope) :
    n.perform (.act around child action) =
      (some (action.perform ⟨scope, n.world⟩).1,
        { n.setFrame (child :: around) (action.perform ⟨scope, n.world⟩).2.scope.frame with
          world := (action.perform ⟨scope, n.world⟩).2.world }) := by
  obtain ⟨outside, frame, located, _, rfl⟩ := scope?_child found
  obtain ⟨frame', after⟩ := action.contained.framed ⟨outside.holding frame, n.world⟩
  have taken : n.put (child :: around) (action.perform ⟨outside.holding frame, n.world⟩).2.scope =
      n.setFrame (child :: around) (action.perform ⟨outside.holding frame, n.world⟩).2.scope.frame := by
    rw [after]
    exact put_holding located frame'
  rw [perform, found]
  dsimp only
  rw [taken]

/-! ### Nests around which the same is defined -/

/-- Nests that differ only in what is registered in their outer scopes and around them. -/
structure Twins (n n' : Nest) : Prop where
  outer : n.outer.Resembles n'.outer
  frames : n'.frames = n.frames
  world : n'.world = n.world

theorem Twins.scope? (twins : n.Twins n') (a : Address) :
    (n.scope? a = none ∧ n'.scope? a = none) ∨
      ∃ scope scope', n.scope? a = some scope ∧ n'.scope? a = some scope' ∧ scope.Resembles scope' ∧
        (a ≠ [] → scope'.frame = scope.frame) := by
  induction a with
  | nil => exact .inr ⟨n.outer, n'.outer, rfl, rfl, twins.outer, fun no => absurd rfl no⟩
  | cons i a ih =>
    rw [Nest.scope?, Nest.scope?, twins.frames]
    rcases ih with ⟨left, right⟩ | ⟨scope, scope', left, right, same, _⟩
    · exact .inl ⟨by rw [left], by rw [right]⟩
    · rw [left, right]
      cases n.frames (i :: a) with
      | none => exact .inl ⟨rfl, rfl⟩
      | some frame => exact .inr ⟨_, _, rfl, rfl, same.inside frame, fun _ => rfl⟩

theorem perform_outer (n : Nest) (deed : Deed) : (n.perform deed).2.outer = n.outer := by
  cases deed with
  | make around child =>
    rw [perform]
    cases n.scope? around <;> rfl
  | drop around child => rfl
  | act around child action =>
    cases found : n.scope? (child :: around) with
    | none => rw [perform, found]
    | some scope => rw [perform_act action found, setFrame]

theorem Twins.without (twins : n.Twins n') (a : Address) : (n.without a).Twins (n'.without a) :=
  ⟨twins.outer, by rw [Nest.without, Nest.without, twins.frames], twins.world⟩

theorem Twins.setFrame (twins : n.Twins n') (a : Address) (frame : Frame) : (n.setFrame a frame).Twins (n'.setFrame a frame) :=
  ⟨twins.outer, by rw [Nest.setFrame, Nest.setFrame, twins.frames], twins.world⟩

/-- A deed goes the same way whatever is registered in the outer scope and around it. -/
theorem Twins.perform (twins : n.Twins n') (deed : Deed) :
    (n'.perform deed).1 = (n.perform deed).1 ∧ (n.perform deed).2.Twins (n'.perform deed).2 := by
  cases deed with
  | make around child =>
    rw [Nest.perform, Nest.perform]
    rcases twins.scope? around with ⟨left, right⟩ | ⟨scope, scope', left, right, _, _⟩
    · rw [left, right]
      exact ⟨rfl, twins⟩
    · rw [left, right]
      exact ⟨rfl, (twins.without _).setFrame _ {}⟩
  | drop around child => exact ⟨rfl, twins.without _⟩
  | act around child action =>
    rcases twins.scope? (child :: around) with ⟨left, right⟩ | ⟨scope, scope', left, right, same, own⟩
    · rw [Nest.perform, Nest.perform, left, right]
      exact ⟨rfl, twins⟩
    · have sessions : Session.Twins ⟨scope, n.world⟩ ⟨scope', n'.world⟩ :=
        ⟨twins.world, own (List.cons_ne_nil _ _), same⟩
      obtain ⟨outcome, after⟩ := action.contained.blind sessions
      rw [perform_act action left, perform_act action right, outcome, after.frame, after.world]
      have framed := twins.setFrame (child :: around) (action.perform ⟨scope, n.world⟩).2.scope.frame
      exact ⟨rfl, framed.outer, framed.frames, rfl⟩

theorem performAll_outer (n : Nest) (deeds : List Deed) : (n.performAll deeds).2.outer = n.outer := by
  induction deeds generalizing n with
  | nil => rfl
  | cons deed deeds ih => exact (ih (n.perform deed).2).trans (n.perform_outer deed)

theorem Twins.performAll (twins : n.Twins n') (deeds : List Deed) :
    (n'.performAll deeds).1 = (n.performAll deeds).1 ∧ (n.performAll deeds).2.Twins (n'.performAll deeds).2 := by
  induction deeds generalizing n n' with
  | nil => exact ⟨rfl, twins⟩
  | cons deed deeds ih =>
    obtain ⟨outcome, twins⟩ := twins.perform deed
    obtain ⟨outcomes, twins⟩ := ih twins
    exact ⟨List.cons_eq_cons.mpr ⟨outcome, outcomes⟩, twins⟩

/-! ### What names mean in a child -/

theorem parameter?_holding (scope : Scope) (frame : Frame) (name : Text) :
    (scope.holding frame).parameter? name = (frame.parameters.get? name).or (scope.parameter? name) := by
  change List.findSome? _ (frame :: scope.frames) = _
  rw [List.findSome?_cons]
  cases frame.parameters.get? name <;> rfl

theorem function?_holding (scope : Scope) (frame : Frame) (name : Text) :
    (scope.holding frame).function? name = (frame.functions.get? name).or (scope.function? name) := by
  change List.findSome? _ (frame :: scope.frames) = _
  rw [List.findSome?_cons]
  cases frame.functions.get? name <;> rfl

/-- Descendants never leak. After any deeds to them, and callbacks and evaluations that follow, the outer scope has the
parameters, functions and registrations it had. The deeds end as they would with any other registrations in it or
around it, so none of these fires. From then on evaluations in it are what they would be if there had been
no descendants, in any world with the same generator, and go on from the record of that world. And a name in a
child means what the child defines, or else what it means in the scope around. -/
theorem descendants_contained (outer : Scope) (world : World) (deeds : List Deed) :
    let after := (alone outer world).performAll deeds
    after.2.outer = outer ∧
      (∀ other, outer.Resembles other →
        ((alone other world).performAll deeds).1 = after.1 ∧ after.2.Twins ((alone other world).performAll deeds).2) ∧
      (∀ w, after.2.world.generator = w.generator →
        (∀ simulation t, (after.2.outer.evaluate simulation t after.2.world).1 = (outer.evaluate simulation t w).1 ∧
          World.Alike after.2.world.events w.events (after.2.outer.evaluate simulation t after.2.world).2
            (outer.evaluate simulation t w).2) ∧
        ∀ f arguments, (after.2.outer.call f arguments after.2.world).1 = (outer.call f arguments w).1 ∧
          World.Alike after.2.world.events w.events (after.2.outer.call f arguments after.2.world).2
            (outer.call f arguments w).2) ∧
      ∀ child around scope, after.2.scope? (child :: around) = some scope →
        ∃ outside frame, after.2.scope? around = some outside ∧ after.2.frames (child :: around) = some frame ∧
          (∀ name, scope.parameter? name = (frame.parameters.get? name).or (outside.parameter? name)) ∧
          ∀ name, scope.function? name = (frame.functions.get? name).or (outside.function? name) := by
  intro after
  have same : after.2.outer = outer := performAll_outer (alone outer world) deeds
  refine ⟨same, fun other resembles => ?_, fun w generator => ?_, fun child around scope found => ?_⟩
  · have twins : (alone outer world).Twins (alone other world) := ⟨resembles, rfl, rfl⟩
    exact twins.performAll deeds
  · rw [same]
    exact ⟨fun simulation t => outer.evaluate_alike simulation t generator,
      fun f arguments => outer.call_alike f arguments generator⟩
  · obtain ⟨outside, frame, located, own, rfl⟩ := scope?_child found
    exact ⟨outside, frame, located, own, parameter?_holding outside frame, function?_holding outside frame⟩

/-- A parameter is set in a child and in its child. In the outer scope there is a registration that reads a parameter
of that name, and would fail. -/
theorem descendants_contained_watched :
    let watching : Registration := { text := chars "a", reads := [chars "a"], callback := fun _ => .fail .empty }
    let plain := (Scope.empty .hspice).store (chars "a") 1
    let deeds : List Deed := [.make [] 0, .act [] 0 (.set (chars "a") 2), .make [0] 1, .act [0] 1 (.set (chars "a") 3)]
    let after := (alone (plain.register watching) {}).performAll deeds
    plain.Resembles (plain.register watching) ∧ after.2.outer = plain.register watching ∧
      after.1 = ((alone plain {}).performAll deeds).1 ∧
      ∃ scope outside, ∃ frame : Frame, after.2.scope? [1, 0] = some scope ∧ after.2.scope? [0] = some outside ∧
        ∀ name, scope.parameter? name = (frame.parameters.get? name).or (outside.parameter? name) := by
  intro watching plain deeds after
  obtain ⟨same, others, _, names⟩ := descendants_contained (plain.register watching) {} deeds
  have made : (after.2.scope? [1, 0]).isSome = true := by decide +kernel
  obtain ⟨scope, found⟩ := Option.isSome_iff_exists.mp made
  obtain ⟨outside, frame, located, _, parameters, _⟩ := names 1 [0] scope found
  exact ⟨⟨rfl, rfl⟩, same, (others plain ⟨rfl, rfl⟩).1.symm, scope, outside, frame, found, located, parameters⟩

end Nest

end Netlist
