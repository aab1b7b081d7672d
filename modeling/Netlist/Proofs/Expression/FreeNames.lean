import Mathlib
import Netlist.Proofs.Expression.Locality

/-!
The free names of a text are what its evaluation asks for, whatever values there are: they are exact
where evaluation succeeds, and no evaluation depends on parameters that are not among them.
-/
namespace Netlist.Scope

/-- The free names of a text are exact. If its evaluation succeeds and calls permitted functions only,
they are the names of the parameters that it looks up and of the functions that it calls. If they are
found at all, then scopes with the same functions and the same generator give the text the same
outcome, as soon as they agree on its free parameters. -/
theorem freeNames_exact (s : Scope) (simulation : Option Simulation) (t : Text) (w : World) :
    (∀ v w', s.evaluate simulation t w = (.ok v, w') → (∀ f ∈ (s.trace simulation t w).calls, f.Permitted) →
      ∃ names, s.freeNames t = .ok names ∧
        (∀ n, n ∈ names.parameters ↔ ∃ name ∈ (s.trace simulation t w).parameters, n = asciiLower name) ∧
        ∀ n, n ∈ names.functions ↔ ∃ name ∈ (s.trace simulation t w).functions, n = asciiLower name) ∧
    ∀ (names : FreeNames) (s' : Scope) (w' : World), s.freeNames t = .ok names → s.Allows (s.trace simulation t w) names →
      s.WellNamed → s'.WellNamed → (∀ name, s'.function? name = s.function? name) → w.generator = w'.generator →
      (∀ n ∈ names.parameters, s.parameter? n = s'.parameter? n) →
      (s.evaluate simulation t w).1 = (s'.evaluate simulation t w').1 := by
  constructor
  · intro v w' ok permitted
    have observed := s.observe_erases simulation t w []
    rw [ok] at observed
    obtain ⟨-, -, same⟩ := (s.recorded_observe simulation t).covers w [] (.inl permitted) s.knows_nil
    obtain ⟨b, scanned, -, names⟩ := same v (congrArg Prod.fst observed)
    refine ⟨(s.trace simulation t w).names, freeNames_eq_ok.mpr ⟨b, Prod.ext scanned names⟩, Trace.mem_names _⟩
  · intro names s' w' found allowed named named' functions generators agree
    exact evaluate_congr (tied_generator True) named named' functions generators (confined_of_freeNames found allowed agree)

/-- Free names of a call whose argument is evaluated only when the call is: another parameter makes no
difference. -/
theorem freeNames_lazy :
    let s := ((empty .hspice).define Library.lazyFunction).store (chars "x") 2
    (∃ names, s.freeNames (chars "lazy(X)") = .ok names ∧ chars "x" ∈ names.parameters ∧ chars "lazy" ∈ names.functions) ∧
      (s.evaluate none (chars "lazy(X)") {}).1 = ((s.store (chars "y") 3).evaluate none (chars "lazy(X)") {}).1 := by
  intro s
  have trace : s.trace none (chars "lazy(X)") {} = [.call Library.lazyFunction, .parameter (chars "X")] := by cbv
  have ok : (s.evaluate none (chars "lazy(X)") {}).1.isOk = true := by decide +kernel
  have permitted : ∀ f ∈ (s.trace none (chars "lazy(X)") {}).calls, f.Permitted := by
    rw [trace]
    intro f member
    exact .inr (.inl (List.mem_singleton.mp member))
  have named : s.WellNamed := ((wellNamed_empty _).define _).store _ _
  obtain ⟨exact, unchanged⟩ := freeNames_exact s none (chars "lazy(X)") {}
  rcases eq : s.evaluate none (chars "lazy(X)") {} with ⟨fault | v, w'⟩
  · rw [eq] at ok
    cases ok
  · obtain ⟨names, found, parameters, functions⟩ := exact v w' eq permitted
    rw [trace] at parameters functions
    have read := (parameters (chars "x")).mpr ⟨chars "X", List.mem_singleton.mpr rfl, by decide⟩
    refine ⟨⟨names, found, read, (functions (chars "lazy")).mpr ⟨chars "lazy", List.mem_singleton.mpr rfl, by decide⟩⟩, ?_⟩
    rw [← eq]
    refine unchanged names (s.store (chars "y") 3) {} found (.inl permitted) named (named.store _ _) (fun _ => rfl) rfl ?_
    intro n member
    obtain ⟨name, looked, rfl⟩ := (parameters n).mp member
    rcases List.mem_singleton.mp looked with rfl
    rfl

end Netlist.Scope
