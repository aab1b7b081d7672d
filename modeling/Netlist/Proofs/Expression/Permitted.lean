import Netlist.Proofs.Expression.Lockstep
import Netlist.Proofs.Library.Kinds

/-!
Functions whose use of the scope shows in the text of a call: functions of values that do not consult
the scope, and the two functions of the library that evaluate the texts of their arguments. All
functions of the library are such functions, but for the one that asks whether a parameter is
defined; and all of these but the statistical ones are deterministic.
-/
namespace Netlist

abbrev Program.Detached {α : Type} (draws : Prop) (p : Program α) : Prop :=
  p.Uses (fun _ => False) (fun _ _ => False) draws

namespace Function

/-- A lookup table, a lazy argument, or a function of values that does not consult the scope. -/
def Manifest (draws : Prop) (f : Function) : Prop :=
  f = Library.tableFunction ∨ f = Library.lazyFunction ∨
    (f.isRaw = false ∧ ∀ vs, (f.call (.values vs)).Detached draws)

/-- A function whose use of the scope shows in the text of a call. -/
abbrev Permitted (f : Function) : Prop := f.Manifest True

abbrev Deterministic (f : Function) : Prop := f.Manifest False

end Function

theorem Program.Uses.bind {α β : Type} {looksUp : Text → Prop} {evaluates : List (Text × Float) → Text → Prop}
    {draws : Prop} {p : Program α} {k : α → Program β} (first : p.Uses looksUp evaluates draws)
    (next : ∀ a, (k a).Uses looksUp evaluates draws) : (p >>= k).Uses looksUp evaluates draws := by
  change (p.bind k).Uses looksUp evaluates draws
  induction p with
  | done a => exact next a
  | fail | violated => trivial
  | parameter name rest ih => exact ⟨first.1, fun v => ih v (first.2 v)⟩
  | evaluate bindings t rest ih => exact ⟨first.1, fun v => ih v (first.2 v)⟩
  | draw rest ih => exact ⟨first.1, fun n => ih n (first.2 n)⟩
  | simulation rest ih => exact fun s => ih s (first s)
  | note e rest ih => exact ih first

theorem Program.uses_values {looksUp : Text → Prop} {evaluates : List (Text × Float) → Text → Prop}
    {draws : Prop} {ts : List Text} (member : ∀ t ∈ ts, evaluates [] t) :
    (Program.values ts).Uses looksUp evaluates draws := by
  induction ts with
  | nil => trivial
  | cons t ts ih =>
    have first : (Program.value [] t).Uses looksUp evaluates draws := by
      refine ⟨member t List.mem_cons_self, fun outcome => ?_⟩
      cases outcome <;> trivial
    exact first.bind fun v => (ih fun t inside => member t (List.mem_cons_of_mem _ inside)).bind fun vs => trivial

theorem Program.Uses.mono {α : Type} {looksUp looksUp' : Text → Prop} {evaluates evaluates' : List (Text × Float) → Text → Prop}
    {draws draws' : Prop} {p : Program α} (uses : p.Uses looksUp evaluates draws) (parameters : ∀ name, looksUp name → looksUp' name)
    (texts : ∀ bindings t, evaluates bindings t → evaluates' bindings t) (random : draws → draws') :
    p.Uses looksUp' evaluates' draws' := by
  induction p with
  | done | fail | violated => trivial
  | parameter name next ih => exact ⟨parameters _ uses.1, fun v => ih v (uses.2 v)⟩
  | evaluate bindings t next ih => exact ⟨texts _ _ uses.1, fun v => ih v (uses.2 v)⟩
  | draw next ih => exact ⟨random uses.1, fun n => ih n (uses.2 n)⟩
  | simulation next ih => exact fun s => ih s (uses s)
  | note e next ih => exact ih uses

theorem Function.Deterministic.permitted {f : Function} (deterministic : f.Deterministic) : f.Permitted :=
  deterministic.imp_right (Or.imp_right (And.imp_right fun detached vs =>
    (detached vs).mono (fun _ => id) (fun _ _ => id) fun _ => trivial))

theorem Function.Manifest.uses {draws : Prop} {f : Function} (manifest : f.Manifest draws) (arguments : Arguments) :
    (f.call arguments).Uses (fun _ => False) (fun bindings t => bindings = [] ∧ ∃ ts, arguments = .raw ts ∧ t ∈ ts)
      draws := by
  rcases manifest with rfl | rfl | ⟨plain, detached⟩
  · unfold call
    split
    · trivial
    · cases arguments with
      | values vs => trivial
      | raw ts =>
        change Program.Uses _ _ _ (if ts.length % 2 = 0 then _ else _)
        split
        · trivial
        · refine (Program.uses_values fun t member => ⟨rfl, ts, rfl, member⟩).bind fun vs => ?_
          cases vs <;> trivial
  · unfold call
    split
    · trivial
    · cases arguments with
      | values vs => trivial
      | raw ts =>
        rcases ts with _ | ⟨t, _ | ⟨u, ts⟩⟩
        · trivial
        · refine ⟨⟨rfl, [t], rfl, List.mem_singleton_self t⟩, fun outcome => ?_⟩
          cases outcome <;> trivial
        · trivial
  · cases arguments with
    | values vs => exact (detached vs).mono (fun _ no => no.elim) (fun _ _ no => no.elim) id
    | raw ts =>
      unfold isRaw at plain
      unfold call
      split
      · trivial
      · split at plain
        · cases plain
        · next body logic =>
          rw [logic]
          trivial

theorem Program.Direct.detached {α : Type} {draws : Prop} {p : Program α} (direct : p.Direct draws) : p.Detached draws := by
  induction p with
  | done | fail => trivial
  | draw next ih => exact ⟨direct.1, fun n => ih n (direct.2 n)⟩
  | violated | parameter | evaluate | simulation | note => exact direct.elim

theorem Function.Direct.manifest {draws : Prop} {f : Function} (direct : f.Direct draws) : f.Manifest draws :=
  .inr (.inr ⟨direct.plain, fun vs => (direct.values vs).detached⟩)

namespace Library

theorem detached_limit (x a b : Float) : (limit x a b).Detached False := by
  unfold limit
  dsimp only
  split <;> trivial

theorem deterministic_limitFunction : limitFunction.Deterministic := by
  refine .inr (.inr ⟨rfl, fun vs => ?_⟩)
  unfold Function.call
  split
  · trivial
  · rcases vs with _ | ⟨x, _ | ⟨a, _ | ⟨b, _ | ⟨c, vs⟩⟩⟩⟩
    case cons.cons.cons.nil => exact detached_limit x a b
    all_goals trivial

theorem deterministic {d : Dialect} {f : Function} (member : f ∈ functions d) (constant : f ∉ statistics)
    (other : f ≠ definedFunction) : f.Deterministic := by
  cases kind_of_mem member with
  | table => exact .inl rfl
  | lazy => exact .inr (.inl rfl)
  | defined => exact absurd rfl other
  | limit => exact deterministic_limitFunction
  | constant direct => exact direct.manifest
  | random drawing => exact absurd drawing constant

/-- The functions of the library are permitted, but for the one that looks at definitions. -/
theorem permitted {d : Dialect} {f : Function} (member : f ∈ functions d) (other : f ≠ definedFunction) : f.Permitted := by
  cases kind_of_mem member with
  | table => exact .inl rfl
  | lazy => exact .inr (.inl rfl)
  | defined => exact absurd rfl other
  | limit => exact deterministic_limitFunction.permitted
  | constant direct => exact Function.Deterministic.permitted direct.manifest
  | random _ direct => exact direct.manifest

end Library

end Netlist
