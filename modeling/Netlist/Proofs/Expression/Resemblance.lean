import Netlist.Proofs.Expression.Agreement
import Netlist.Proofs.Expression.Steady

/-!
Scopes that define the same, whatever is registered in them. Nothing that is looked up or evaluated in them
tells them apart, and an evaluation depends on no more of the world than the generator.
-/
namespace Netlist

/-! ### Scopes -/

def Frame.definitions (frame : Frame) : Named Float × Named Function := (frame.parameters, frame.functions)

namespace Scope

structure Resembles (s s' : Scope) : Prop where
  dialect : s'.dialect = s.dialect
  definitions : s'.frames.map Frame.definitions = s.frames.map Frame.definitions

namespace Resembles
variable {s s' s'' : Scope}

theorem refl (s : Scope) : s.Resembles s := ⟨rfl, rfl⟩

theorem parameter? (same : s.Resembles s') (name : Text) : s'.parameter? name = s.parameter? name := by
  have found (frames : List Frame) : frames.findSome? (·.parameters.get? name) =
      (frames.map Frame.definitions).findSome? (·.1.get? name) := by
    rw [List.findSome?_map]
    rfl
  rw [Scope.parameter?, Scope.parameter?, found, found, same.definitions]

theorem function? (same : s.Resembles s') (name : Text) : s'.function? name = s.function? name := by
  have found (frames : List Frame) : frames.findSome? (·.functions.get? name) =
      (frames.map Frame.definitions).findSome? (·.2.get? name) := by
    rw [List.findSome?_map]
    rfl
  rw [Scope.function?, Scope.function?, found, found, same.definitions]

theorem visible_congr {frames frames' : List Frame} (same : frames'.map Frame.definitions = frames.map Frame.definitions)
    (seen : List Text) : visible seen frames' = visible seen frames := by
  induction frames generalizing frames' seen with
  | nil => rw [List.map_eq_nil_iff.mp same]
  | cons frame rest ih =>
    obtain ⟨frame', rest', rfl, first, later⟩ := List.map_eq_cons_iff.mp same
    have functions : frame'.functions = frame.functions := congrArg Prod.snd first
    rw [visible, visible, functions, ih later]

theorem operators (same : s.Resembles s') : s'.operators = s.operators := by
  rw [Scope.operators, Scope.operators, visible_congr same.definitions]

theorem freeNames (same : s.Resembles s') (t : Text) : s'.freeNames t = s.freeNames t :=
  freeNames_congr (funext same.function?) same.operators t

/-- Scopes with the same innermost frame, inside of others that define the same. -/
theorem inside (same : s.Resembles s') (frame : Frame) :
    Resembles { s with frame, ancestors := s.frames } { s' with frame, ancestors := s'.frames } :=
  ⟨same.dialect, congrArg (frame.definitions :: ·) same.definitions⟩

theorem withFrame (same : s.Resembles s') {frame frame' : Frame} (own : frame'.definitions = frame.definitions) :
    Resembles { s with frame } { s' with frame := frame' } :=
  ⟨same.dialect, List.cons_eq_cons.mpr ⟨own, (List.cons.inj same.definitions).2⟩⟩

theorem store (same : s.Resembles s') (name : Text) (v : Float) : (s.store name v).Resembles (s'.store name v) := by
  have own : s'.frame.definitions = s.frame.definitions := (List.cons.inj same.definitions).1
  refine same.withFrame (Prod.ext ?_ (congrArg (·.2) own))
  exact congrArg (·.1.insert name v) own

theorem child (same : s.Resembles s') (bindings : List (Text × Float)) : (s.child bindings).Resembles (s'.child bindings) := by
  have fold {s s' : Scope} (same : s.Resembles s') :
      (bindings.foldl (fun inner binding => inner.store binding.1 binding.2) s).Resembles
        (bindings.foldl (fun inner binding => inner.store binding.1 binding.2) s') := by
    induction bindings generalizing s s' with
    | nil => exact same
    | cons binding bindings ih => exact ih (same.store _ _)
  exact fold (same.inside {})

/-! ### Evaluation -/

theorem agrees (same : s.Resembles s') : s.Agrees s' :=
  ⟨same.parameter?, same.function?, fun t => congrArg (longestOperator? · t) same.operators⟩

variable {R : World → World → Prop}

/-- Evaluations in scopes that define the same and in tied worlds go on in parallel. -/
theorem parallel_evaluateWithin (tied : Tied True R) (depth : Nat) (same : s.Resembles s') (simulation : Option Simulation)
    (t : Text) : Parallel R Eq (evaluateWithin depth s simulation t) (evaluateWithin depth s' simulation t) :=
  (effectful_parallel tied).evaluateWithin 0 (fun _ _ _ => .fail _) depth same.agrees t

theorem parallel_call (tied : Tied True R) (same : s.Resembles s') (f : Function) (arguments : Arguments) :
    Parallel R Eq (s.call f arguments) (s'.call f arguments) :=
  (effectful_parallel tied).run same.agrees
    (fun bindings t => parallel_evaluateWithin tied evaluationDepth (same.child bindings) none t) _

theorem evaluate (same : s.Resembles s') (simulation : Option Simulation) (t : Text) :
    s.evaluate simulation t = s'.evaluate simulation t :=
  (parallel_evaluateWithin (tied_eq True) evaluationDepth same simulation t).eq

theorem call (same : s.Resembles s') (f : Function) (arguments : Arguments) : s.call f arguments = s'.call f arguments :=
  (same.parallel_call (tied_eq True) f arguments).eq

end Resembles

end Scope

/-! ### Worlds -/

/-- Whether two worlds have the same generator, and the same record behind different beginnings. -/
def World.Alike (log log' : List Event) (w w' : World) : Prop :=
  w.generator = w'.generator ∧ ∃ noted, w.events = log ++ noted ∧ w'.events = log' ++ noted

theorem tied_alike (log log' : List Event) : Tied True (World.Alike log log') where
  generator _ _ _ alike := alike.1
  drawn _ _ _ alike _ := ⟨rfl, alike.2⟩
  noted := by
    rintro w w' ⟨generator, noted, left, right⟩ e
    exact ⟨generator, noted ++ [e], by rw [left, List.append_assoc], by rw [right, List.append_assoc]⟩

theorem World.Alike.of_generator {w w' : World} (same : w.generator = w'.generator) : Alike w.events w'.events w w' :=
  ⟨same, [], (List.append_nil _).symm, (List.append_nil _).symm⟩

/-- Of the world, an evaluation sees no more than the generator. -/
theorem Scope.evaluate_alike (s : Scope) (simulation : Option Simulation) (t : Text) {w w' : World}
    (same : w.generator = w'.generator) : (s.evaluate simulation t w).1 = (s.evaluate simulation t w').1 ∧
      World.Alike w.events w'.events (s.evaluate simulation t w).2 (s.evaluate simulation t w').2 := by
  obtain ⟨outcome, alike⟩ := Resembles.parallel_evaluateWithin (tied_alike w.events w'.events) evaluationDepth (.refl s)
    simulation t w w' (.of_generator same)
  exact ⟨outcome.eq, alike⟩

theorem Scope.call_alike (s : Scope) (f : Function) (arguments : Arguments) {w w' : World}
    (same : w.generator = w'.generator) : (s.call f arguments w).1 = (s.call f arguments w').1 ∧
      World.Alike w.events w'.events (s.call f arguments w).2 (s.call f arguments w').2 := by
  obtain ⟨outcome, alike⟩ := (Resembles.refl s).parallel_call (tied_alike w.events w'.events) f arguments w w' (.of_generator same)
  exact ⟨outcome.eq, alike⟩

end Netlist
