import Netlist.Proofs.Expression.Computation
import Netlist.Proofs.Expression.Observation

/-!
Observed evaluation in lockstep with ordinary evaluation, as long as what is asked for meets a
condition. Without a condition and in the same scope this says that observation changes nothing.
-/
namespace Netlist
variable {α β : Type}

inductive SameOutcome (V : α → β → Prop) : Except Fault α → Except Fault β → Prop
  | value {a b} (related : V a b) : SameOutcome V (.ok a) (.ok b)
  | fault (f : Fault) : SameOutcome V (.error f) (.error f)

theorem SameOutcome.eq {a b : Except Fault α} (same : SameOutcome Eq a b) : a = b := by
  cases same with
  | value related => rw [related]
  | fault f => rfl

theorem SameOutcome.refl {V : α → α → Prop} (same : ∀ a, V a a) (outcome : Except Fault α) : SameOutcome V outcome outcome := by
  cases outcome with
  | ok a => exact .value (same a)
  | error f => exact .fault f

/-- A relation between worlds that programs cannot tell apart and that they preserve, be they allowed
to draw random numbers or not. -/
structure Tied (draws : Prop) (R : World → World → Prop) : Prop where
  generator : draws → ∀ {w w'}, R w w' → w.generator = w'.generator
  drawn : draws → ∀ {w w'}, R w w' → ∀ generator, R { w with generator } { w' with generator }
  noted : ∀ {w w'}, R w w' → ∀ e, R { w with events := w.events ++ [e] } { w' with events := w'.events ++ [e] }

theorem tied_eq (draws : Prop) : Tied draws Eq where
  generator _ _ _ same := congrArg _ same
  drawn _ _ _ same _ := by rw [same]
  noted same _ := by rw [same]

theorem tied_generator (draws : Prop) : Tied draws fun w w' => w.generator = w'.generator where
  generator _ _ _ same := same
  drawn _ _ _ _ _ := rfl
  noted same _ := same

theorem tied_any : Tied False fun _ _ => True where
  generator no := no.elim
  drawn no := no.elim
  noted _ _ := trivial

/-- An observed computation and an ordinary one go the same way, if the worlds are tied and the final
record meets a condition. The record grows in any case. -/
def Lockstep (R : World → World → Prop) (P : Trace → Prop) (V : α → β → Prop) (m : Eval Observed α) (n : Eval World β) :
    Prop :=
  ∀ world trace,
    (trace <+: (m (world, trace)).2.2 ∧ ∀ a, (m (world, trace)).1 = .ok a → ∃ b, V a b) ∧
    ∀ world', R world world' → P (m (world, trace)).2.2 →
      SameOutcome V (m (world, trace)).1 (n world').1 ∧ R (m (world, trace)).2.1 (n world').2

namespace Lockstep
variable {R : World → World → Prop} {P : Trace → Prop} {V : α → β → Prop}

theorem pure {a : α} {b : β} (related : V a b) : Lockstep R P V (pure a) (pure b) := fun _ trace =>
  ⟨⟨List.prefix_rfl, fun _ ok => by cases ok; exact ⟨b, related⟩⟩, fun _ tied _ => ⟨.value related, tied⟩⟩

theorem fail (f : Fault) : Lockstep R P V (throw f) (throw f) := fun _ trace =>
  ⟨⟨List.prefix_rfl, fun _ ok => by cases ok⟩, fun _ tied _ => ⟨.fault f, tied⟩⟩

theorem bind {α' β' : Type} {W : α' → β' → Prop} (closed : ∀ {t t'}, t <+: t' → P t' → P t) {m : Eval Observed α} {n : Eval World β}
    {k : α → Eval Observed α'} {l : β → Eval World β'} (first : Lockstep R P V m n)
    (next : ∀ a b, V a b → Lockstep R P W (k a) (l b)) : Lockstep R P W (m >>= k) (n >>= l) := by
  intro world trace
  obtain ⟨⟨grows, total⟩, same⟩ := first world trace
  rw [Eval.bind_apply]
  rcases eq : m (world, trace) with ⟨f | a, ⟨world₁, trace₁⟩⟩
  · rw [eq] at grows same
    refine ⟨⟨grows, fun _ ok => by cases ok⟩, fun world' tied holds => ?_⟩
    obtain ⟨outcome, tied⟩ := same world' tied holds
    rw [Eval.bind_apply]
    rcases eq' : n world' with ⟨f' | b, world₁'⟩
    · rw [eq'] at outcome tied
      cases outcome
      exact ⟨.fault f, tied⟩
    · rw [eq'] at outcome
      cases outcome
  · rw [eq] at grows total same
    obtain ⟨b, related⟩ := total a rfl
    obtain ⟨⟨grows', total'⟩, -⟩ := next a b related world₁ trace₁
    refine ⟨⟨grows.trans grows', total'⟩, fun world' tied holds => ?_⟩
    obtain ⟨outcome, tied⟩ := same world' tied (closed grows' holds)
    rw [Eval.bind_apply]
    rcases eq' : n world' with ⟨f' | b', world₁'⟩
    · rw [eq'] at outcome
      cases outcome
    · rw [eq'] at outcome tied
      cases outcome with
      | value related => exact (next a b' related world₁ trace₁).2 world₁' tied holds

end Lockstep

def lockstep (R : World → World → Prop) (P : Trace → Prop) (closed : ∀ {t t'}, t <+: t' → P t' → P t) :
    Correspondence Observed World where
  value := Eq
  holds := Lockstep R P
  applied := apply_eq_of_forall₂
  pure := Lockstep.pure
  bind := Lockstep.bind closed
  fail := Lockstep.fail

/-- Whether all parameters that a program may look up and all texts that it may evaluate, whatever it
gets for an answer, are of a kind, and whether it may draw random numbers. -/
def Program.Uses (looksUp : Text → Prop) (evaluates : List (Text × Float) → Text → Prop) (draws : Prop) :
    Program α → Prop
  | done _ | fail _ | violated => True
  | parameter name next => looksUp name ∧ ∀ v, (next v).Uses looksUp evaluates draws
  | evaluate bindings t next => evaluates bindings t ∧ ∀ outcome, (next outcome).Uses looksUp evaluates draws
  | draw next => draws ∧ ∀ n, (next n).Uses looksUp evaluates draws
  | simulation next => ∀ s, (next s).Uses looksUp evaluates draws
  | note _ next => next.Uses looksUp evaluates draws

theorem Program.uses_anything (p : Program α) : p.Uses (fun _ => True) (fun _ _ => True) True := by
  induction p with
  | done | fail | violated => trivial
  | parameter name next ih => exact ⟨trivial, ih⟩
  | evaluate bindings t next ih => exact ⟨trivial, ih⟩
  | draw next ih => exact ⟨trivial, ih⟩
  | simulation next ih => exact ih
  | note e next ih => exact ih

section
variable {R : World → World → Prop} {P : Trace → Prop} (closed : ∀ {t t'}, t <+: t' → P t' → P t)
include closed

theorem Lockstep.recorded {V : α → β → Prop} (occurrence : Occurrence) {m : Eval Observed α} {n : Eval World β}
    (grows : ∀ world trace, trace <+: (m (world, trace)).2.2 ∧ ∀ a, (m (world, trace)).1 = .ok a → ∃ b, V a b)
    (next : (∃ trace, P (trace ++ [occurrence])) → Lockstep R P V m n) :
    Lockstep R P V (record occurrence >>= fun _ => m) n := by
  intro world trace
  change (trace <+: (m (world, trace ++ [occurrence])).2.2 ∧ ∀ a, (m (world, trace ++ [occurrence])).1 = .ok a → ∃ b, V a b) ∧ _
  obtain ⟨grown, total⟩ := grows world (trace ++ [occurrence])
  refine ⟨⟨(List.prefix_append trace _).trans grown, total⟩, fun world' tied holds => ?_⟩
  exact (next ⟨trace, closed grown holds⟩ world (trace ++ [occurrence])).2 world' tied holds

omit closed in
theorem Lockstep.attempt {m : Eval Observed α} {n : Eval World α} (same : Lockstep R P Eq m n) :
    Lockstep R P Eq m.attempt n.attempt := by
  intro world trace
  obtain ⟨⟨grows, -⟩, same⟩ := same world trace
  rw [Eval.attempt_apply]
  refine ⟨⟨grows, fun a _ => ⟨a, rfl⟩⟩, fun world' tied holds => ?_⟩
  obtain ⟨outcome, tied⟩ := same world' tied holds
  rw [Eval.attempt_apply, outcome.eq]
  exact ⟨.refl (fun _ => rfl) _, tied⟩

/-- A program goes on in lockstep in two scopes that agree on what it looks up, if the texts that it
evaluates do. -/
theorem lockstep_observe {draws : Prop} (tied : Tied draws R) {s s' : Scope} {nested : Evaluator Observed} {nested' : Nested}
    {simulation : Option Simulation} {looksUp : Text → Prop} {evaluates : List (Text × Float) → Text → Prop}
    (agree : ∀ name, looksUp name → s.parameter? name = s'.parameter? name)
    (inner : ∀ bindings t, evaluates bindings t →
      Lockstep R P Eq (nested (s.child bindings) simulation t) (nested' (s'.child bindings) simulation t))
    {p : Program α} (uses : p.Uses looksUp evaluates draws) :
    Lockstep R P Eq (p.observe nested s simulation) (p.run nested' s' simulation) := by
  induction p with
  | done a => exact .pure rfl
  | fail e => exact .fail _
  | violated => exact .fail _
  | parameter name next ih =>
    have later := ih (s.parameter? name) (uses.2 _)
    refine Lockstep.recorded closed _ (fun world trace => (later world trace).1) fun _ => ?_
    rw [agree name uses.1] at later ⊢
    exact later
  | evaluate bindings t next ih =>
    refine Lockstep.bind closed (inner bindings t uses.1).attempt fun outcome _ same => ?_
    subst same
    exact ih outcome (uses.2 outcome)
  | draw next ih =>
    intro world trace
    obtain ⟨grows, same⟩ := ih world.generator.next.1 (uses.2 _) { world with generator := world.generator.next.2 } trace
    refine ⟨grows, fun world' related holds => ?_⟩
    have drawn := same _ (tied.drawn uses.1 related world.generator.next.2) holds
    have ordinary : (Program.draw next).run nested' s' simulation world' =
        (next world.generator.next.1).run nested' s' simulation { world' with generator := world.generator.next.2 } := by
      rw [tied.generator uses.1 related]
      rfl
    rw [ordinary]
    exact drawn
  | simulation next ih => exact ih simulation (uses simulation)
  | note e next ih =>
    intro world trace
    obtain ⟨grows, same⟩ := ih uses { world with events := world.events ++ [e] } trace
    exact ⟨grows, fun world' related holds => same _ (tied.noted related e) holds⟩

/-- The meaning of names in two scopes goes in lockstep if their functions are the same, they agree on
the parameters that meet the condition, and so do the functions that meet it. -/
theorem related_lockstep {s s' : Scope} {nested : Evaluator Observed} {nested' : Nested}
    {simulation : Option Simulation} {text : Text}
    (functions : ∀ name, s'.function? name = s.function? name)
    (operators : ∀ t, longestOperator? s'.operators t = longestOperator? s.operators t)
    (agree : ∀ trace name, P (trace ++ [.parameter name]) → s.parameter? name = s'.parameter? name)
    (grows : ∀ (f : Function) arguments world trace,
      trace <+: ((f.call arguments).observe nested s simulation (world, trace)).2.2)
    (call : ∀ trace (f : Function) arguments, P (trace ++ [.call f]) → (∀ ts, arguments = .raw ts → ∀ t ∈ ts, t.length < text.length) →
      Lockstep R P Eq ((f.call arguments).observe nested s simulation) ((f.call arguments).run nested' s' simulation)) :
    (s.observer nested simulation).Related (lockstep R P closed) text (s'.resolver nested' simulation) where
  function? := functions
  operators := operators
  parameter name := by
    refine Lockstep.recorded closed _ (fun world trace => ?_) fun ⟨trace, holds⟩ => ?_
    · cases (s.parameter? name).or (constant? name) with
      | some v => exact ⟨List.prefix_rfl, fun a _ => ⟨a, rfl⟩⟩
      | none => exact ⟨List.prefix_rfl, fun a _ => ⟨a, rfl⟩⟩
    · rw [agree trace name holds]
      dsimp only [Scope.resolver]
      cases (s'.parameter? name).or (constant? name) with
      | some v => exact .pure rfl
      | none => exact .fail _
  unknown name := Lockstep.recorded closed _ (fun _ _ => ⟨List.prefix_rfl, fun a _ => ⟨a, rfl⟩⟩) fun _ => .fail _
  note name := fun world trace =>
    ⟨⟨List.prefix_append _ _, fun _ _ => ⟨(), trivial⟩⟩, fun _ tied _ => ⟨.value trivial, tied⟩⟩
  callValues f vs ws _ same := by
    rw [show vs = ws from by rwa [show (lockstep R P closed).value = Eq from rfl, List.forall₂_eq_eq_eq] at same]
    exact Lockstep.recorded closed _ (fun world trace => ⟨grows f _ world trace, fun a _ => ⟨a, rfl⟩⟩)
      fun ⟨trace, holds⟩ => call trace f _ holds fun _ raw => by cases raw
  callTexts f ts _ parts :=
    Lockstep.recorded closed _ (fun world trace => ⟨grows f _ world trace, fun a _ => ⟨a, rfl⟩⟩)
      fun ⟨trace, holds⟩ => call trace f _ holds fun _ raw => by cases raw; exact fun t member => (parts t member).2

end

theorem lockstep_observeWithin (depth : Nat) (s : Scope) (simulation : Option Simulation) (t : Text) :
    Lockstep Eq (fun _ => True) Eq (observeWithin depth s simulation t) (evaluateWithin depth s simulation t) := by
  have closed {t t' : Trace} (_ : t <+: t') (_ : True) : True := trivial
  induction depth generalizing s simulation t with
  | zero => exact .fail _
  | succ depth outer =>
    induction size : t.length using Nat.strongRecOn generalizing s simulation t with
    | ind n shorter =>
      have programs (p : Program Float) :
          Lockstep Eq (fun _ => True) Eq (p.observe (observedIn depth t) s simulation) (p.run (nestedIn depth t) s simulation) := by
        refine lockstep_observe closed (tied_eq _) (fun _ _ => rfl) (fun bindings inner _ => ?_) p.uses_anything
        unfold observedIn nestedIn
        split
        · next less => exact shorter inner.length (size ▸ less) (s.child bindings) simulation inner rfl
        · exact outer (s.child bindings) simulation inner
      rw [observeWithin_succ, evaluateWithin_succ]
      exact Correspondence.holds_run (related_lockstep closed (fun _ => rfl) (fun _ => rfl) (fun _ _ _ => rfl)
        (fun f arguments world trace => (programs (f.call arguments) world trace).1.1) fun _ f arguments _ _ => programs _)

theorem Program.observe_grows (p : Program α) (depth : Nat) (t : Text) (s : Scope) (simulation : Option Simulation)
    (world : World) (trace : Trace) : trace <+: (p.observe (observedIn depth t) s simulation (world, trace)).2.2 := by
  have inner (bindings : List (Text × Float)) (inside : Text) (_ : True) :
      Lockstep Eq (fun _ => True) Eq (observedIn depth t (s.child bindings) simulation inside)
        (nestedIn depth t (s.child bindings) simulation inside) :=
    lockstep_observeWithin _ (s.child bindings) simulation inside
  exact (lockstep_observe (fun _ _ => trivial) (tied_eq _) (fun _ _ => rfl) inner p.uses_anything world trace).1.1

/-- Without its record, observed evaluation is evaluation. -/
theorem Scope.observe_erases (s : Scope) (simulation : Option Simulation) (t : Text) (world : World) (trace : Trace) :
    ((s.observe simulation t (world, trace)).1, (s.observe simulation t (world, trace)).2.1) =
      s.evaluate simulation t world := by
  obtain ⟨outcome, same⟩ := (lockstep_observeWithin evaluationDepth s simulation t world trace).2 world rfl trivial
  exact Prod.ext outcome.eq same

end Netlist
