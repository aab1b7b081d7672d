import Netlist.Proofs.Expression.Confinement
import Netlist.Proofs.Expression.Visibility
import Netlist.Proofs.Library.Returning

/-!
A guard around `limit`. With it, `limit` ends with an error where both of its bounds are no
numbers. Evaluation that calls no other functions than the library then always returns, unless a
number in a text has a letter behind it whose lower case has fewer bytes; and without the guard it
does the same, but for the panic in place of that error.
-/
namespace Netlist

/-- The function `limit`, but with an error where both bounds are no numbers. -/
def Library.guardedLimit (e : EvalError) : Function :=
  { limitFunction with
    logic := .evaluated fun
      | [x, a, b] => if a.isNaN && b.isNaN then .fail e else limit x a b
      | _ => .violated }

def Function.guarded (e : EvalError) (f : Function) : Function :=
  if f.name = Library.limitFunction.name then Library.guardedLimit e else f

namespace Scope

def guardedResolver (e : EvalError) (s : Scope) (nested : Nested) (simulation : Option Simulation) : Resolver World :=
  { s.resolver nested simulation with
    call f arguments := ((f.guarded e).call arguments).run nested s simulation }

end Scope

def guardedWithin (e : EvalError) : Nat → Nested :=
  Evaluator.within fun nested s simulation t => Machine.run (s.guardedResolver e nested simulation) t

def guardedIn (e : EvalError) (depth : Nat) (t : Text) : Nested := fun s simulation inner =>
  guardedWithin e (if inner.length < t.length then depth + 1 else depth) s simulation inner

theorem guardedWithin_succ (e : EvalError) (depth : Nat) (s : Scope) (simulation : Option Simulation) (t : Text) :
    guardedWithin e (depth + 1) s simulation t = Machine.run (s.guardedResolver e (guardedIn e depth t) simulation) t :=
  Evaluator.within_succ depth s simulation t

namespace Scope

def evaluateGuarded (e : EvalError) (s : Scope) (simulation : Option Simulation) (t : Text) : Eval World Float :=
  guardedWithin e evaluationDepth s simulation t

end Scope

namespace Library
variable {d : Dialect} {f : Function}

theorem limitFunction_mem (d : Dialect) : limitFunction ∈ functions d := by
  simp [functions, choices]

theorem eq_limitFunction (member : f ∈ functions d) (named : f.name = limitFunction.name) : f = limitFunction := by
  have found := Scope.function?_standard member
  rw [named, Scope.function?_standard (limitFunction_mem d)] at found
  exact (Option.some.inj found).symm

theorem guarded_cases (member : f ∈ functions d) (e : EvalError) :
    f = limitFunction ∧ f.guarded e = guardedLimit e ∨ f ≠ limitFunction ∧ f.guarded e = f := by
  unfold Function.guarded
  split
  · next named => exact .inl ⟨eq_limitFunction member named, rfl⟩
  · next other => exact .inr ⟨fun same => other (congrArg Function.name same), rfl⟩

theorem returning_guardedLimit (e : EvalError) : (guardedLimit e).Returning where
  values vs := by
    unfold Function.call
    split
    · trivial
    · next accepted =>
      obtain ⟨x, a, b, rfl⟩ := Arity.accepts_three.mp (by simpa [guardedLimit, limitFunction, Arguments.count] using accepted)
      dsimp only [guardedLimit]
      split
      · trivial
      · next number => exact returning_limit (by simpa using number)
  texts ts := by
    unfold Function.call
    split <;> trivial
  derivatives vs p given := by cases given

theorem returning_guarded (member : f ∈ functions d) (e : EvalError) : (f.guarded e).Returning := by
  rcases guarded_cases member e with ⟨-, guarded⟩ | ⟨other, guarded⟩
  · rw [guarded]
    exact returning_guardedLimit e
  · rw [guarded]
    exact returning member other

theorem returning_derivatives (member : f ∈ functions d) {vs : List Float} {p : Program (List Float)}
    (given : f.derivatives? vs = some p) : p.Returning fun _ => False := by
  by_cases limit : f = limitFunction
  · subst limit
    cases given
  · exact (returning member limit).derivatives vs p given

/-- A call does the same with the guard, or it violates a precondition where the guard ends it. -/
theorem call_guarded (member : f ∈ functions d) (e : EvalError) (arguments : Arguments) :
    f.call arguments = (f.guarded e).call arguments ∨
      f.call arguments = .violated ∧ (f.guarded e).call arguments = .fail e := by
  rcases guarded_cases member e with ⟨rfl, guarded⟩ | ⟨-, guarded⟩
  · rw [guarded]
    cases arguments with
    | raw ts => exact .inl rfl
    | values vs =>
      by_cases accepted : (Arity.fixed 3).accepts vs.length = true
      · obtain ⟨x, a, b, rfl⟩ := Arity.accepts_three.mp accepted
        change limit x a b = (if a.isNaN && b.isNaN then _ else limit x a b) ∨
          limit x a b = _ ∧ (if a.isNaN && b.isNaN then _ else limit x a b) = _
        by_cases undefined : a.isNaN = true ∧ b.isNaN = true
        · exact .inr ⟨limit_eq_violated undefined, if_pos (by simpa using undefined)⟩
        · exact .inl (if_neg (by simpa using undefined)).symm
      · have refused {g : Function} (arity : g.arity = .fixed 3) :
            g.call (.values vs) = .fail (g.arityError vs.length) := by
          unfold Function.call
          rw [arity]
          exact if_pos (by simpa [Arguments.count] using accepted)
        rw [refused (g := limitFunction) rfl, refused (g := guardedLimit e) rfl]
        exact .inl rfl
  · exact .inl (by rw [guarded])

end Library

/-! ### With the guard -/

/-- The faults of an evaluation that returns, but for numbers that are torn. -/
def Torn (letter : Prop) (fault : Fault) : Prop := (∃ e, fault = .error e) ∨ fault = .violated ∧ letter

/-- With the guard, evaluation returns unless a number is torn. -/
theorem guardedWithin_ends (e : EvalError) (depth : Nat) {s : Scope} (library : s.HoldsLibrary)
    (simulation : Option Simulation) (t : Text) :
    Eval.Ends (guardedWithin e (depth + 1) s simulation t) (fun _ => True) (Torn ('\u212a' ∈ t)) := by
  induction size : t.length using Nat.strongRecOn generalizing s t with
  | ind n shorter =>
    rw [guardedWithin_succ]
    have errors (err : EvalError) : Torn ('\u212a' ∈ t) (.error err) := .inl ⟨err, rfl⟩
    exact Machine.run_ends {
      error := errors
      letter := fun letter => .inr ⟨rfl, letter⟩
      parameter name := by
        dsimp only [Scope.guardedResolver, Scope.resolver]
        split
        · exact .pure trivial
        · exact .raise (errors _)
      callValues f vs offered :=
        ((Library.returning_guarded (library f offered) e).values vs).ends errors fun _ no => no.elim
      callTexts f ts offered parts := by
        refine ((Library.returning_guarded (library f offered) e).texts ts).ends errors fun inner member => ?_
        have part := parts inner member
        unfold guardedIn
        rw [if_pos part.2]
        exact (shorter inner.length (size ▸ part.2) library.child inner rfl).faults fun fault =>
          Or.imp_right (And.imp_right part.mem)
      unknown name := .raise (errors _)
      note name := .pure trivial }

/-! ### Without the guard -/

def Unguarded (e : EvalError) (f g : Fault) : Prop := f = g ∨ f = .violated ∧ g = .error e

def unguarded (e : EvalError) : Correspondence World World := inStep (Unguarded e) fun _ => .inl rfl

theorem unguarded_refl (e : EvalError) {α : Type} {V : α → α → Prop} (same : ∀ a, V a a) (m : Eval World α) :
    (unguarded e).holds V m m :=
  inStep_refl _ same m

/-- A program that returns does the same if the texts that it evaluates do. Where one of them meets
the guard, the program ends with the error of the guard. -/
theorem Program.Returning.unguarded {e : EvalError} {α : Type} {asks : Text → Prop} {nested nested' : Nested} {s : Scope}
    {simulation : Option Simulation}
    (inner : ∀ t, asks t → (unguarded e).holds Eq (nested (s.child []) simulation t) (nested' (s.child []) simulation t))
    {p : Program α} (returning : p.Returning asks) :
    (Netlist.unguarded e).holds Eq (p.run nested s simulation) (p.run nested' s simulation) := by
  induction p with
  | done a => exact (Netlist.unguarded e).pure rfl
  | fail err => exact (Netlist.unguarded e).fail _
  | violated => exact returning.elim
  | parameter name next ih => exact ih _ (returning _)
  | evaluate bindings t next ih =>
    obtain ⟨rfl, asked, failing, values⟩ := returning
    rw [run_evaluate failing, run_evaluate failing]
    refine (Netlist.unguarded e).bind (inner t asked) fun v w same => ?_
    subst same
    exact ih _ (values v)
  | draw next ih => exact fun world => ih _ (returning _) { world with generator := world.generator.next.2 }
  | simulation next ih => exact ih _ (returning _)
  | note event next ih => exact fun world => ih returning { world with events := world.events ++ [event] }

theorem Library.unguarded_call {d : Dialect} {f : Function} (member : f ∈ functions d) (e : EvalError) {arguments : Arguments}
    {nested nested' : Nested} {s : Scope} {simulation : Option Simulation} {asks : Text → Prop}
    (returning : ((f.guarded e).call arguments).Returning asks)
    (inner : ∀ t, asks t → (unguarded e).holds Eq (nested (s.child []) simulation t) (nested' (s.child []) simulation t)) :
    (unguarded e).holds Eq ((f.call arguments).run nested s simulation)
      (((f.guarded e).call arguments).run nested' s simulation) := by
  rcases call_guarded member e arguments with same | ⟨violated, failed⟩
  · rw [same]
    exact returning.unguarded inner
  · rw [violated, failed]
    exact fun world => ⟨.fault (.inr ⟨rfl, rfl⟩), rfl⟩

/-- The guard changes nothing but what would violate a precondition. -/
theorem unguarded_within (e : EvalError) (depth : Nat) {s : Scope} (library : s.HoldsLibrary)
    (simulation : Option Simulation) (t : Text) :
    (unguarded e).holds Eq (evaluateWithin depth s simulation t) (guardedWithin e depth s simulation t) := by
  induction depth generalizing s t with
  | zero => exact (unguarded e).fail _
  | succ depth outer =>
    induction size : t.length using Nat.strongRecOn generalizing s t with
    | ind n shorter =>
      have inner (u : Text) : (unguarded e).holds Eq (nestedIn depth t (s.child []) simulation u)
          (guardedIn e depth t (s.child []) simulation u) := by
        unfold nestedIn guardedIn
        split
        · next less => exact shorter u.length (size ▸ less) library.child u rfl
        · exact outer library.child u
      rw [evaluateWithin_succ, guardedWithin_succ]
      exact Correspondence.holds_run (C := unguarded e) {
        function? _ := rfl
        operators _ := rfl
        parameter name := unguarded_refl e (fun _ => rfl) _
        unknown name := unguarded_refl e (fun _ => rfl) _
        note name := unguarded_refl e (fun _ => trivial) _
        callValues f vs ws offered same := by
          obtain rfl : vs = ws := by rwa [show (unguarded e).value = Eq from rfl, List.forall₂_eq_eq_eq] at same
          have member := library f offered
          exact Library.unguarded_call member e ((Library.returning_guarded member e).values vs) fun _ _ => inner _
        callTexts f ts offered _ := by
          have member := library f offered
          exact Library.unguarded_call member e ((Library.returning_guarded member e).texts ts) fun _ _ => inner _ }

end Netlist
