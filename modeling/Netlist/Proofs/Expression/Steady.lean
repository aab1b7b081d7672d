import Netlist.Proofs.Expression.Locality

/-!
Scopes over the same functions, which differ in their parameters only, and texts whose value depends on
nothing but parameters.
-/
namespace Netlist.Scope

/-- Free names depend on no more of a scope than its functions. -/
theorem freeNames_congr {s s' : Scope} (functions : s'.function? = s.function?) (operators : s'.operators = s.operators)
    (t : Text) : s'.freeNames t = s.freeNames t := by
  have scans (bound : Nat) : FreeNames.scanWithin s' bound = FreeNames.scanWithin s bound := by
    induction bound with
    | zero => rfl
    | succ bound ih =>
      have same : FreeNames.recorder s' (FreeNames.scanWithin s' bound) =
          FreeNames.recorder s (FreeNames.scanWithin s bound) := by
        rw [ih]
        unfold FreeNames.recorder
        rw [functions, operators]
      funext t
      exact congrArg (Machine.run · t) same
  unfold Scope.freeNames
  rw [scans]

structure Over (base s : Scope) : Prop where
  ancestors : s.ancestors = base.ancestors
  functions : s.frame.functions = base.frame.functions

namespace Over
variable {base s s' : Scope}

theorem refl (s : Scope) : s.Over s := ⟨rfl, rfl⟩

theorem trans (first : base.Over s) (second : s.Over s') : base.Over s' :=
  ⟨second.ancestors.trans first.ancestors, second.functions.trans first.functions⟩

theorem function? (fits : base.Over s) : s.function? = base.function? := by
  funext name
  unfold Scope.function? frames
  rw [List.findSome?_cons, List.findSome?_cons, fits.functions, fits.ancestors]

theorem operators (fits : base.Over s) : s.operators = base.operators := by
  unfold Scope.operators frames visible
  rw [fits.functions, fits.ancestors]

theorem wellNamed (fits : base.Over s) (named : base.WellNamed) : s.WellNamed := by
  intro frame member
  rcases List.mem_cons.mp member with rfl | ancestor
  · unfold Frame.WellNamed
    rw [fits.functions]
    exact named base.frame List.mem_cons_self
  · exact named frame (List.mem_cons_of_mem _ (fits.ancestors ▸ ancestor))

theorem freeNames (fits : base.Over s) (t : Text) : s.freeNames t = base.freeNames t :=
  freeNames_congr fits.function? fits.operators t

end Over

def Steady (s : Scope) (t : Text) (names : FreeNames) : Prop :=
  s.freeNames t = .ok names ∧ ∀ name ∈ names.functions, ∀ f, s.function? name = some f → f.Deterministic

/-- The outcome of a steady text depends on the values of its free parameters only. -/
theorem Steady.evaluate_eq {base s s' : Scope} {t : Text} {names : FreeNames} (steady : base.Steady t names)
    (named : base.WellNamed) (fits : base.Over s) (fits' : base.Over s')
    (agree : ∀ n ∈ names.parameters, s.parameter? n = s'.parameter? n) (simulation : Option Simulation) (w w' : World) :
    (s.evaluate simulation t w).1 = (s'.evaluate simulation t w').1 := by
  obtain ⟨found, deterministic⟩ := steady
  rw [← fits.freeNames] at found
  rw [← fits.function?] at deterministic
  have named' := fits.wellNamed named
  have allowed : s.Allows (s.trace simulation t w) names :=
    .inr ⟨named', fun name member f visible => (deterministic name member f visible).permitted⟩
  obtain ⟨knows, within⟩ := freeNames_covers found allowed
  refine evaluate_congr tied_any named' (fits'.wellNamed named) (fun name => ?_) trivial
    ⟨(confined_of_freeNames found allowed agree).1, fun f called => ?_⟩
  · rw [fits'.function?, fits.function?]
  · have free := within.2 (((Trace.mem_names _).2 _).mpr ⟨f.name, Trace.mem_functions called, rfl⟩)
    refine deterministic (asciiLower f.name) free f ?_
    rw [s.function?_congr (foldCase_asciiLower f.name)]
    exact (knows f called).2 named'

end Netlist.Scope
