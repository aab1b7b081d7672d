import Netlist.Proofs.Expression.Recording

/-!
An evaluation depends on no more of its scope than it asks for. Another scope with the same functions
gives the same outcome, if it agrees on the parameters that are looked up and the functions that are
called do not consult the scope by themselves. The generator matters only to functions that draw from
it. What is asked for is among the free names.
-/
namespace Netlist

def Trace.Confined (kind : Text → Prop) (draws : Prop) (trace : Trace) : Prop :=
  (∀ name ∈ trace.parameters, kind name) ∧ ∀ f ∈ trace.calls, f.Manifest draws

theorem Trace.Confined.of_prefix {kind : Text → Prop} {draws : Prop} {trace more : Trace} (grown : trace <+: more)
    (confined : more.Confined kind draws) : trace.Confined kind draws :=
  ⟨fun name member => confined.1 name ((grown.filterMap _).subset member),
    fun f member => confined.2 f ((grown.filterMap _).subset member)⟩

/-- Confined evaluation goes in lockstep with evaluation in a scope that agrees on the kind of
parameters. -/
theorem lockstep_confined {R : World → World → Prop} {kind : Text → Prop} {draws : Prop} (tied : Tied draws R) (depth : Nat)
    {s s' : Scope} (named : s.WellNamed) (named' : s'.WellNamed) (functions : ∀ name, s'.function? name = s.function? name)
    (agree : ∀ name, kind name → s.parameter? name = s'.parameter? name) (simulation : Option Simulation) (t : Text) :
    Lockstep R (Trace.Confined kind draws) Eq (observeWithin (depth + 1) s simulation t)
      (evaluateWithin (depth + 1) s' simulation t) := by
  induction size : t.length using Nat.strongRecOn generalizing s s' t with
  | ind n shorter =>
    rw [observeWithin_succ, evaluateWithin_succ]
    refine Correspondence.holds_run (related_lockstep Trace.Confined.of_prefix functions
      (Scope.longestOperator?_eq named named' functions) (fun trace name confined => ?_)
      (fun f arguments world trace => Program.observe_grows _ depth t s simulation world trace)
      fun trace f arguments confined less => ?_)
    · exact agree name (confined.1 name (by simp [Trace.parameters]))
    · have manifest : f.Manifest draws := confined.2 f (by simp [Trace.calls])
      refine lockstep_observe Trace.Confined.of_prefix tied (fun name no => no.elim) ?_
        (manifest.uses arguments)
      rintro bindings inner ⟨rfl, ts, raw, member⟩
      have less := less ts raw inner member
      unfold observedIn nestedIn
      rw [if_pos less]
      exact shorter inner.length (size ▸ less) (named.child []) (named'.child []) functions agree inner rfl

namespace Scope

/-- Two scopes with the same functions give the same outcome, if they agree on what the evaluation in
the first one looks up. -/
theorem evaluate_congr {R : World → World → Prop} {draws : Prop} (tied : Tied draws R) {s s' : Scope}
    (named : s.WellNamed) (named' : s'.WellNamed) (functions : ∀ name, s'.function? name = s.function? name)
    {simulation : Option Simulation} {t : Text} {w w' : World} (worlds : R w w')
    (confined : (s.trace simulation t w).Confined (fun name => s.parameter? name = s'.parameter? name) draws) :
    (s.evaluate simulation t w).1 = (s'.evaluate simulation t w').1 := by
  obtain ⟨outcome, -⟩ := (lockstep_confined tied 999 named named' functions (fun _ same => same) simulation t w []).2 w'
    worlds confined
  rw [← s.observe_erases simulation t w []]
  exact outcome.eq

theorem knows_nil (s : Scope) : s.Knows [] := fun _ member => nomatch member

theorem freeNames_eq_ok {s : Scope} {t : Text} {names : FreeNames} :
    s.freeNames t = .ok names ↔ ∃ v, FreeNames.scanWithin s (t.length + 1) t {} = (.ok v, names) := by
  unfold freeNames
  rcases FreeNames.scanWithin s (t.length + 1) t {} with ⟨fault | v, found⟩
  · exact ⟨fun same => (nomatch same), fun ⟨_, same⟩ => nomatch congrArg Prod.fst same⟩
  · exact ⟨fun same => ⟨v, by cases same; rfl⟩, fun ⟨_, same⟩ => congrArg Except.ok (congrArg Prod.snd same)⟩

theorem recorded_observe (s : Scope) (simulation : Option Simulation) (t : Text) :
    Recorded s (fun _ _ => True) (s.observe simulation t) (FreeNames.scanWithin s (t.length + 1) t) :=
  FreeNames.recorded_scanWithin 999 rfl rfl simulation (Nat.lt_succ_self _)

/-- Whatever an evaluation asks for is among the free names, be there a value or not. -/
theorem freeNames_covers {s : Scope} {t : Text} {names : FreeNames} (found : s.freeNames t = .ok names)
    {simulation : Option Simulation} {w : World} (allowed : s.Allows (s.trace simulation t w) names) :
    s.Knows (s.trace simulation t w) ∧ (s.trace simulation t w).names.Within names := by
  obtain ⟨v, scanned⟩ := freeNames_eq_ok.mp found
  have covers := (s.recorded_observe simulation t).covers w []
  rw [show Trace.names [] = {} from rfl, scanned] at covers
  obtain ⟨knows, within, -⟩ := covers allowed s.knows_nil
  exact ⟨knows, within⟩

/-- An evaluation that looks up free names only is confined to what scopes agree on that agree on the
free names. -/
theorem confined_of_freeNames {s s' : Scope} {t : Text} {names : FreeNames} (found : s.freeNames t = .ok names)
    {simulation : Option Simulation} {w : World} (allowed : s.Allows (s.trace simulation t w) names)
    (agree : ∀ n ∈ names.parameters, s.parameter? n = s'.parameter? n) :
    (s.trace simulation t w).Confined (fun name => s.parameter? name = s'.parameter? name) True := by
  obtain ⟨knows, within⟩ := freeNames_covers found allowed
  refine ⟨fun name member => ?_, fun f member => (knows f member).1⟩
  have same := agree (asciiLower name) (within.1 (((Trace.mem_names _).1 _).mpr ⟨name, member, rfl⟩))
  rwa [s.parameter?_congr (foldCase_asciiLower name), s'.parameter?_congr (foldCase_asciiLower name)] at same

end Scope

end Netlist
