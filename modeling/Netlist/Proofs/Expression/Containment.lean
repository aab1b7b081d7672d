import Netlist.Proofs.Expression.Firing
import Netlist.Proofs.Expression.Resemblance

/-!
Operations on a scope and the scopes around it. Whatever is set, derived, defined or registered in a scope, and
whatever callbacks do then, changes the innermost frame only, and what is registered in the frames around it
makes no difference.
-/
namespace Netlist.Session

variable {α β : Type} {s s' : Session} {m n : Update α} {set : Text → Float → Update Unit}

/-! ### Operations in related sessions -/

def Together (R : Session → Session → Prop) (m n : Update α) : Prop := ∀ s s', R s s' → (n s').1 = (m s).1 ∧ R (m s).2 (n s').2

namespace Together
variable {R : Session → Session → Prop}

theorem pure (a : α) : Together R (pure a : Update α) (pure a) := fun _ _ related => ⟨rfl, related⟩

theorem fail (f : Fault) : Together R (throw f : Update α) (throw f) := fun _ _ related => ⟨rfl, related⟩

theorem bind {k l : α → Update β} (first : Together R m n) (next : ∀ a, Together R (k a) (l a)) :
    Together R (m >>= k) (n >>= l) := by
  intro s s' related
  obtain ⟨outcome, related⟩ := first s s' related
  rw [Eval.bind_apply, Eval.bind_apply]
  rcases left : m s with ⟨f | a, s₁⟩ <;> rcases right : n s' with ⟨g | b, s₁'⟩
  all_goals rw [left, right] at outcome related; cases outcome
  · exact ⟨rfl, related⟩
  · exact next a _ _ related

theorem attempt (same : Together R m n) : Together R m.attempt n.attempt := by
  intro s s' related
  obtain ⟨outcome, related⟩ := same s s' related
  rw [Eval.attempt_apply, Eval.attempt_apply, outcome]
  exact ⟨rfl, related⟩

/-- What goes on with the session that it finds. -/
theorem asking {k l : Session → Update α} (next : ∀ s s', R s s' → Together R (k s) (l s')) :
    Together R ((get : Update Session) >>= k) ((get : Update Session) >>= l) := fun s s' related =>
  next s s' related s s' related

end Together

/-! ### Sessions in other surroundings -/

/-- Sessions that differ only in what is registered in the scopes around theirs. -/
structure Twins (s s' : Session) : Prop where
  world : s'.world = s.world
  frame : s'.scope.frame = s.scope.frame
  resembles : s.scope.Resembles s'.scope

/-- Whether an operation leaves the scopes around alone and does not notice what is registered in them. -/
structure Contained (m : Update α) : Prop where
  framed : ∀ s, ∃ frame, (m s).2.scope = { s.scope with frame }
  blind : ∀ {s s'}, Twins s s' → (m s').1 = (m s).1 ∧ Twins (m s).2 (m s').2

namespace Contained

theorem pure (a : α) : Contained (pure a : Update α) :=
  ⟨fun s => ⟨s.scope.frame, rfl⟩, fun twins => ⟨rfl, twins⟩⟩

theorem fail (f : Fault) : Contained (throw f : Update α) :=
  ⟨fun s => ⟨s.scope.frame, rfl⟩, fun twins => ⟨rfl, twins⟩⟩

theorem bind {k : α → Update β} (first : Contained m) (next : ∀ a, Contained (k a)) : Contained (m >>= k) := by
  refine ⟨fun s => ?_, fun twins => Together.bind (fun _ _ => first.blind) (fun a _ _ => (next a).blind) _ _ twins⟩
  obtain ⟨frame, before⟩ := first.framed s
  rw [Eval.bind_apply]
  rcases eq : m s with ⟨f | a, s₁⟩ <;> rw [eq] at before
  · exact ⟨frame, before⟩
  · obtain ⟨frame', behind⟩ := (next a).framed s₁
    exact ⟨frame', behind.trans (congrArg (fun scope : Scope => { scope with frame := frame' }) before)⟩

theorem attempt (contained : Contained m) : Contained m.attempt := by
  refine ⟨fun s => ?_, fun twins => Together.attempt (fun _ _ => contained.blind) _ _ twins⟩
  rw [Eval.attempt_apply]
  exact contained.framed s

/-- What goes on with something that is the same in all twins. -/
theorem asking (ask : Session → β) (same : ∀ {s s'}, Twins s s' → ask s' = ask s) {k : β → Update α}
    (next : ∀ b, Contained (k b)) : Contained ((get : Update Session) >>= fun s => k (ask s)) := by
  refine ⟨fun s => (next (ask s)).framed s, fun twins => Together.asking (fun s s' twins => ?_) _ _ twins⟩
  rw [same twins]
  exact fun _ _ => (next (ask s)).blind

theorem ofFrame (f : Frame → Frame) : Contained (changing fun scope => { scope with frame := f scope.frame }) := by
  refine ⟨fun s => ⟨f s.scope.frame, rfl⟩, fun {s s'} twins => ⟨rfl, twins.world, congrArg f twins.frame, ?_⟩⟩
  exact twins.resembles.withFrame (congrArg (Frame.definitions ∘ f) twins.frame)

theorem ofWorld (f : World → World) : Contained (modify fun s => { s with world := f s.world } : Update Unit) :=
  ⟨fun s => ⟨s.scope.frame, rfl⟩, fun twins => ⟨rfl, congrArg f twins.world, twins.frame, twins.resembles⟩⟩

theorem evaluating {evaluation : Scope → Eval World α}
    (same : ∀ {s s' : Scope}, s.Resembles s' → evaluation s = evaluation s') : Contained (evaluating evaluation) := by
  refine ⟨fun s => ⟨s.scope.frame, rfl⟩, fun {s s'} twins => ?_⟩
  unfold Session.evaluating
  rw [← same twins.resembles, twins.world]
  exact ⟨rfl, rfl, twins.frame, twins.resembles⟩

end Contained

/-! ### The operations -/

theorem contained_evaluate (t : Text) : Contained (evaluate t) := .evaluating fun same => same.evaluate none t

theorem contained_readsOf (t : Text) : Contained (readsOf t) := by
  have scope (s : Session) : (readsOf t s).2 = s := by
    unfold readsOf
    split <;> rfl
  refine ⟨fun s => ⟨s.scope.frame, by rw [scope]⟩, fun {s s'} twins => ⟨?_, by rwa [scope, scope]⟩⟩
  unfold readsOf
  rw [twins.resembles.freeNames]
  split <;> rfl

theorem contained_register (t : Text) (reads : List Text) (callback : Float → Script) :
    Contained (register t reads callback) :=
  .ofFrame fun frame => { frame with
    registrations := frame.registrations ++ [{ text := t, reads := reads.map foldCase, callback }] }

theorem contained_mark (index : Nat) (running : Bool) : Contained (mark index running) :=
  .ofFrame fun frame => { frame with registrations := frame.registrations.modify index ({ · with running }) }

theorem contained_define (f : Function) : Contained (changing (·.define f)) :=
  .ofFrame fun frame => { frame with functions := frame.functions.insert f.name f }

theorem contained_store (name : Text) (v : Float) : Contained (changing (·.store name v)) :=
  .ofFrame fun frame => { frame with parameters := frame.parameters.insert name v }

theorem contained_deriveBy (contained : ∀ name v, Contained (set name v)) (name t : Text) : Contained (deriveBy set name t) :=
  (contained_evaluate t).bind fun value => (contained_readsOf t).bind fun reads => (contained name value).bind fun _ =>
    (contained_register t reads _).bind fun _ => .pure value

theorem contained_run (contained : ∀ name v, Contained (set name v)) (script : Script) : Contained (run set script) := by
  induction script with
  | done => exact .pure ()
  | fail e => exact .fail _
  | note e next ih => exact (Contained.ofWorld fun world => { world with events := world.events ++ [e] }).bind fun _ => ih
  | parameter name next ih => exact .asking (·.scope.parameter? name) (fun twins => twins.resembles.parameter? name) ih
  | evaluate t next ih => exact (contained_evaluate t).attempt.bind ih
  | set name value next ih => exact (contained name value).attempt.bind ih
  | derive name t next ih => exact (contained_deriveBy contained name t).attempt.bind ih
  | watch t reads callback next _ ih => exact (contained_register t reads callback).bind fun _ => ih
  | define f next ih => exact (contained_define f).bind fun _ => ih

def turn (set : Text → Float → Update Unit) (index : Nat) (r : Registration) : Update Unit :=
  if r.running then return
  else do
    mark index true
    let outcome ← (fire set r).attempt
    mark index false
    Eval.ofExcept outcome

theorem refreshOne_eq (set : Text → Float → Update Unit) (index : Nat) : refreshOne set index =
    ((get : Update Session) >>= fun s => s.scope.frame.registrations[index]?.elim (return) (turn set index)) := by
  funext s
  rw [refreshOne, get_bind_apply, get_bind_apply]
  cases s.scope.frame.registrations[index]? <;> rfl

theorem contained_turn (contained : ∀ name v, Contained (set name v)) (index : Nat) (r : Registration) :
    Contained (turn set index r) := by
  unfold turn
  split
  · exact .pure ()
  · refine (contained_mark index true).bind fun _ => ?_
    refine ((contained_evaluate r.text).bind fun v => contained_run contained (r.callback v)).attempt.bind fun outcome => ?_
    refine (contained_mark index false).bind fun _ => ?_
    cases outcome with
    | ok a => exact .pure a
    | error e => exact .fail _

theorem contained_refreshOne (contained : ∀ name v, Contained (set name v)) (index : Nat) :
    Contained (refreshOne set index) := by
  have next (r? : Option Registration) : Contained (r?.elim (Pure.pure ()) (turn set index)) := by
    cases r? with
    | none => exact .pure ()
    | some r => exact contained_turn contained index r
  rw [refreshOne_eq]
  exact .asking (fun s => s.scope.frame.registrations[index]?) (fun twins => by rw [twins.frame]) next

theorem contained_refresh (contained : ∀ name v, Contained (set name v)) (indices : List Nat) :
    Contained (refresh set indices) := by
  induction indices with
  | nil => exact .pure ()
  | cons index indices ih => exact (contained_refreshOne contained index).bind fun _ => ih

theorem contained_setWithin (depth : Nat) (name : Text) (v : Float) : Contained (setWithin depth name v) := by
  -- What callbacks set, they set one level deeper.
  induction depth generalizing name v with
  | zero => exact .fail _
  | succ depth ih =>
    refine (contained_store name v).bind fun _ => ?_
    refine .asking (fun s => affected s.scope name) (fun twins => ?_) (contained_refresh ih)
    rw [affected, affected, twins.frame]

theorem depth_eq (twins : Twins s s') : s'.depth = s.depth := by
  rw [depth, depth, twins.frame]

/-- A parameter that is set, with all that callbacks do then, stays inside its scope. -/
theorem contained_set (name : Text) (v : Float) : Contained (Session.set name v) :=
  .asking depth depth_eq fun depth => contained_setWithin depth name v

theorem contained_derive (name t : Text) : Contained (derive name t) :=
  .asking depth depth_eq fun depth => contained_deriveBy (contained_setWithin depth) name t

end Netlist.Session
