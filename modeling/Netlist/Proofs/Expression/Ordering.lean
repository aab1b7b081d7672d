import Netlist.Proofs.Expression.Agreement
import Netlist.Proofs.Expression.Confinement

/-!
The order in which the operators of a scope are listed. The list is read off from tables that have no
order of their own. Evaluation does not depend on it, since of the operators that a text starts with
only one has the longest name.
-/
namespace Netlist

theorem Frame.WellNamed.nodup_names {frame : Frame} (named : frame.WellNamed) (seen : List Text) :
    (((frame.functions.filter (!seen.contains ·.1)).map (·.2)).map fun f => foldCase f.name).Nodup := by
  have keys : ((frame.functions.filter (!seen.contains ·.1)).map (·.2)).map (fun f => foldCase f.name) =
      (frame.functions.filter (!seen.contains ·.1)).map (·.1) := by
    rw [List.map_map]
    apply List.map_congr_left
    intro entry member
    exact (named.1 entry (List.mem_filter.mp member).1).symm
  rw [keys]
  exact named.2.sublist (List.filter_sublist.map _)

namespace Scope

theorem nodup_visible {frames : List Frame} (named : ∀ frame ∈ frames, frame.WellNamed) (seen : List Text) :
    ((visible seen frames).map fun f => foldCase f.name).Nodup := by
  induction frames generalizing seen with
  | nil => exact List.nodup_nil
  | cons frame rest ih =>
    have later := fun other member => named other (List.mem_cons_of_mem _ member)
    rw [visible, List.map_append, List.nodup_append]
    refine ⟨(named frame List.mem_cons_self).nodup_names seen, ih later _, ?_⟩
    -- What the frames around show has none of the names that were seen before.
    intro name here other inner same
    obtain ⟨g, visibleLater, rfl⟩ := List.mem_map.mp inner
    obtain ⟨f, fresh, rfl⟩ := List.mem_map.mp here
    obtain ⟨entry, member, rfl⟩ := List.mem_map.mp fresh
    have stored := (named frame List.mem_cons_self).1 entry (List.mem_filter.mp member).1
    apply ((mem_visible later _ g).mp visibleLater).1
    rw [← same, ← stored]
    exact List.mem_append_left _ (List.mem_map.mpr ⟨entry, member, rfl⟩)

theorem WellNamed.nodup_operators {s : Scope} (named : s.WellNamed) : s.operators.Nodup :=
  ((nodup_visible named []).of_map _).filter _

end Scope

variable {σ : Type}

def Resolver.withOperators (r : Resolver σ) (order : List Function) : Resolver σ := { r with operators := order }

/-- A run asks only for the longest operator at the places of a text. -/
theorem Machine.run_withOperators (r : Resolver σ) {order : List Function}
    (same : ∀ t, longestOperator? order t = longestOperator? r.operators t) (text : Text) :
    run (r.withOperators order) text = run r text := by
  have alike {α : Type} {V : α → α → Prop} := inStep_refl (σ := σ) (V := V) fun f : Fault => rfl
  have related : (r.withOperators order).Related (inStep Eq fun _ => rfl) text r := {
    function? _ := rfl
    operators t := (same t).symm
    parameter name := alike (fun _ => rfl) _
    unknown name := alike (fun _ => rfl) _
    note name := alike (fun _ => trivial) _
    callValues f vs ws _ values := by
      obtain rfl : vs = ws := by rwa [show (inStep Eq _).value = Eq from rfl, List.forall₂_eq_eq_eq] at values
      exact alike (fun _ => rfl) _
    callTexts f ts _ _ := alike (fun _ => rfl) _ }
  funext s
  obtain ⟨outcome, after⟩ := Correspondence.holds_run related s
  exact Prod.ext outcome.eq after

/-- Evaluation with the operators of every scope in an order that may differ from text to text. -/
def evaluateOrdered (order : Scope → Text → List Function) : Nat → Nested :=
  Evaluator.within fun nested scope simulation t =>
    Machine.run ((scope.resolver nested simulation).withOperators (order scope t)) t

def orderedIn (order : Scope → Text → List Function) (depth : Nat) (t : Text) : Nested := fun scope simulation inner =>
  evaluateOrdered order (if inner.length < t.length then depth + 1 else depth) scope simulation inner

theorem evaluateOrdered_succ (order : Scope → Text → List Function) (depth : Nat) (scope : Scope)
    (simulation : Option Simulation) (t : Text) : evaluateOrdered order (depth + 1) scope simulation t =
      Machine.run ((scope.resolver (orderedIn order depth t) simulation).withOperators (order scope t)) t :=
  Evaluator.within_succ depth scope simulation t

/-- A program asks only for the values of texts in children of its scope. -/
theorem Program.run_eq {α : Type} {nested nested' : Nested} {s : Scope} {simulation : Option Simulation}
    (same : ∀ bindings t, nested (s.child bindings) simulation t = nested' (s.child bindings) simulation t) (p : Program α) :
    p.run nested s simulation = p.run nested' s simulation := by
  exact ((effectful_parallel (tied_eq True)).run (.refl s) (fun bindings t => .of_eq (same bindings t)) p).eq

namespace Scope

variable {s : Scope}

theorem WellNamed.longestOperator?_perm (named : s.WellNamed) {order : List Function} (perm : order.Perm s.operators) (t : Text) :
    longestOperator? order t = longestOperator? s.operators t :=
  longestOperator?_congr (fun _ => perm.mem_iff) (fun _ member _ member' => named.eq_of_foldCase member member') t

theorem evaluateOrdered_eq {order : Scope → Text → List Function} (perm : ∀ s t, (order s t).Perm s.operators)
    (named : s.WellNamed) (depth : Nat) (simulation : Option Simulation) (t : Text) :
    evaluateOrdered order depth s simulation t = evaluateWithin depth s simulation t := by
  -- A text inside of another one is shorter, or it is evaluated at a smaller depth.
  induction depth generalizing s t with
  | zero => simp only [evaluateOrdered, evaluateWithin, Evaluator.within]
  | succ depth outer =>
    induction size : t.length using Nat.strongRecOn generalizing s t with
    | ind n shorter =>
      have inner (bindings : List (Text × Float)) (inside : Text) :
          orderedIn order depth t (s.child bindings) simulation inside =
            nestedIn depth t (s.child bindings) simulation inside := by
        unfold orderedIn nestedIn
        split
        · next less => exact shorter inside.length (size ▸ less) (named.child bindings) inside rfl
        · exact outer (named.child bindings) inside
      have resolvers : s.resolver (orderedIn order depth t) simulation = s.resolver (nestedIn depth t) simulation := by
        unfold resolver
        congr 1
        funext f arguments
        exact Program.run_eq inner _
      rw [evaluateOrdered_succ, evaluateWithin_succ, ← resolvers]
      exact Machine.run_withOperators _ (named.longestOperator?_perm (perm s t)) t

/-- The operators of a scope are the operators that their own names mean, each once. At every text at
most one of a length matches, and the order of the list changes neither what a run returns nor what an
evaluation does whose functions evaluate further texts in scopes of their own. -/
theorem operators_unordered (named : s.WellNamed) :
    s.operators.Nodup ∧
    (∀ f, f ∈ s.operators ↔ f.isOperator = true ∧ s.function? f.name = some f) ∧
    (∀ t, ∀ f ∈ s.operators, ∀ g ∈ s.operators, (afterOperator? f t).isSome → (afterOperator? g t).isSome →
      byteSize f.name = byteSize g.name → f = g) ∧
    (∀ order, order.Perm s.operators → ∀ {σ : Type} (r : Resolver σ), r.operators = s.operators →
      ∀ t, Machine.run (r.withOperators order) t = Machine.run r t) ∧
    (∀ order : Scope → Text → List Function, (∀ s t, (order s t).Perm s.operators) →
      ∀ depth simulation t, evaluateOrdered order depth s simulation t = evaluateWithin depth s simulation t) := by
  refine ⟨named.nodup_operators, fun _ => named.mem_operators, ?_, ?_, ?_⟩
  · intro t f member g member' matched matched' size
    obtain ⟨rest, read⟩ := Option.isSome_iff_exists.mp matched
    obtain ⟨rest', read'⟩ := Option.isSome_iff_exists.mp matched'
    exact named.eq_of_foldCase member member' (foldCase_eq_of_afterOperator? read read' size)
  · intro order perm σ r lists t
    apply Machine.run_withOperators
    rw [lists]
    exact named.longestOperator?_perm perm
  · intro order perm depth simulation t
    exact evaluateOrdered_eq perm named depth simulation t

/-- A scope inside of another one: it defines `MOD` anew, and hides the operator `Div` behind a function. -/
def layered : Scope :=
  let operator (name : String) (v : Float) : Function :=
    { name := chars name, arity := .fixed 2, isOperator := true, logic := .evaluated fun _ => .done v }
  let outer := (((empty .ltspice).define (operator "mod" 1)).define (operator "div" 2)).define (operator "mo" 3)
  ((outer.child []).define (operator "MOD" 4)).define { operator "Div" 5 with isOperator := false }

theorem wellNamed_layered : layered.WellNamed :=
  ((((((wellNamed_empty _).define _).define _).define _).child []).define _).define _

theorem operators_unordered_layered :
    layered.WellNamed ∧ layered.operators.Nodup ∧ layered.operators.map (·.name) = [chars "MOD", chars "mo"] ∧
      layered.operators.reverse.Perm layered.operators ∧
      Machine.run ((layered.resolver (evaluateWithin 1) none).withOperators layered.operators.reverse) (chars "7 mod 2") =
        Machine.run (layered.resolver (evaluateWithin 1) none) (chars "7 mod 2") ∧
      evaluateOrdered (fun s _ => s.operators.reverse) 1 layered none (chars "7 mod 2") =
        evaluateWithin 1 layered none (chars "7 mod 2") := by
  obtain ⟨nodup, -, -, run, evaluate⟩ := operators_unordered wellNamed_layered
  refine ⟨wellNamed_layered, nodup, by decide, List.reverse_perm _, ?_, ?_⟩
  · exact run _ (List.reverse_perm _) _ rfl _
  · exact evaluate _ (fun s _ => List.reverse_perm _) 1 none _

end Scope

end Netlist
