import Netlist.Proofs.Expression.Lockstep
import Netlist.Proofs.Expression.Nesting
import Netlist.Proofs.Expression.Visibility

/-!
Scopes in which names mean the same. What programs do in them is related by every correspondence that
respects the effects of programs; so evaluation with more room for nested texts gives no other result in
them, unless it has run out of room.
-/
namespace Netlist

/-! ### Scopes -/

namespace Scope

structure Agrees (s s' : Scope) : Prop where
  parameter? : ∀ name, s'.parameter? name = s.parameter? name
  function? : ∀ name, s'.function? name = s.function? name
  operators : ∀ t, longestOperator? s'.operators t = longestOperator? s.operators t

namespace Agrees
variable {s s' : Scope}

theorem refl (s : Scope) : s.Agrees s := ⟨fun _ => rfl, fun _ => rfl, fun _ => rfl⟩

theorem of_child (s : Scope) : s.Agrees (s.child []) := ⟨fun _ => rfl, fun _ => rfl, fun _ => rfl⟩

theorem store (agrees : s.Agrees s') (name : Text) (v : Float) : (s.store name v).Agrees (s'.store name v) := by
  refine ⟨fun other => ?_, agrees.function?, agrees.operators⟩
  by_cases same : foldCase other = foldCase name
  · rw [(s.store name v).parameter?_congr same, (s'.store name v).parameter?_congr same, s.parameter?_store_self,
      s'.parameter?_store_self]
  · rw [s.parameter?_store_other same, s'.parameter?_store_other same, agrees.parameter?]

theorem child (agrees : s.Agrees s') (bindings : List (Text × Float)) : (s.child bindings).Agrees (s'.child bindings) := by
  have fold {s s' : Scope} (agrees : s.Agrees s') :
      (bindings.foldl (fun inner binding => inner.store binding.1 binding.2) s).Agrees
        (bindings.foldl (fun inner binding => inner.store binding.1 binding.2) s') := by
    induction bindings generalizing s s' with
    | nil => exact agrees
    | cons binding bindings ih => exact ih (agrees.store _ _)
  have empty : (s.child []).Agrees (s'.child []) := ⟨agrees.parameter?, agrees.function?, agrees.operators⟩
  exact fold empty

end Agrees

end Scope

/-! ### Programs -/

def drawn : Eval World UInt64 := do
  let world ← get
  let (number, generator) := world.generator.next
  set { world with generator }
  return number

def noted (e : Event) : Eval World Unit := modify fun world => { world with events := world.events ++ [e] }

structure Correspondence.Effectful (C : Correspondence World World) : Prop where
  value : C.value = Eq
  attempt : ∀ {m n : Eval World Float}, C.holds Eq m n → C.holds Eq m.attempt n.attempt
  draw : C.holds Eq drawn drawn
  note : ∀ e, C.holds (fun _ _ => True) (noted e) (noted e)

namespace Correspondence.Effectful

variable {C : Correspondence World World} {s s' : Scope} {nested nested' : Nested} {simulation : Option Simulation}

/-- A program does related things in scopes that agree, if the texts that it evaluates have related values. -/
theorem run (effectful : C.Effectful) (agrees : s.Agrees s')
    (inner : ∀ bindings t, C.holds Eq (nested (s.child bindings) simulation t) (nested' (s'.child bindings) simulation t))
    {α : Type} (p : Program α) : C.holds Eq (p.run nested s simulation) (p.run nested' s' simulation) := by
  induction p with
  | done a => exact C.pure rfl
  | fail e => exact C.fail _
  | violated => exact C.fail _
  | parameter name next ih =>
    rw [Program.run, Program.run, agrees.parameter?]
    exact ih _
  | evaluate bindings t next ih =>
    refine C.bind (effectful.attempt (inner bindings t)) fun outcome _ equal => ?_
    subst equal
    exact ih outcome
  | draw next ih =>
    have first (s : Scope) (nested : Nested) :
        (Program.draw next).run nested s simulation = drawn >>= fun number => (next number).run nested s simulation := rfl
    rw [first, first]
    refine C.bind effectful.draw fun number _ equal => ?_
    subst equal
    exact ih number
  | simulation next ih => exact ih simulation
  | note e next ih => exact C.bind (effectful.note e) fun _ _ _ => ih

theorem related (effectful : C.Effectful) (agrees : s.Agrees s') {text : Text}
    (inner : ∀ bindings t, C.holds Eq (nested (s.child bindings) simulation t) (nested' (s'.child bindings) simulation t)) :
    (s.resolver nested simulation).Related C text (s'.resolver nested' simulation) where
  function? := agrees.function?
  operators := agrees.operators
  parameter name := by
    rw [effectful.value]
    dsimp only [Scope.resolver]
    rw [agrees.parameter?]
    cases (s.parameter? name).or (constant? name) with
    | some v => exact C.pure rfl
    | none => exact C.fail _
  unknown _ := C.fail _
  note _ := C.pure trivial
  callValues f vs ws _ equal := by
    rw [effectful.value, List.forall₂_eq_eq_eq] at equal
    subst equal
    rw [effectful.value]
    exact effectful.run agrees inner _
  callTexts f ts _ _ := by
    rw [effectful.value]
    exact effectful.run agrees inner _

/-- Evaluations in scopes that agree are related, the second one with more room or as much. -/
theorem evaluateWithin (effectful : C.Effectful) (more : Nat)
    (bottom : ∀ (s s' : Scope) t, C.holds Eq (evaluateWithin 0 s simulation t) (evaluateWithin more s' simulation t))
    (depth : Nat) (agrees : s.Agrees s') (t : Text) :
    C.holds Eq (evaluateWithin depth s simulation t) (evaluateWithin (depth + more) s' simulation t) := by
  -- A text inside of another one is shorter, or it is evaluated at a smaller depth.
  induction depth generalizing s s' t with
  | zero =>
    rw [Nat.zero_add]
    exact bottom s s' t
  | succ depth outer =>
    induction size : t.length using Nat.strongRecOn generalizing s s' t with
    | ind n shorter =>
      rw [Nat.add_right_comm] at shorter ⊢
      rw [evaluateWithin_succ, evaluateWithin_succ, ← effectful.value]
      refine Correspondence.holds_run (effectful.related agrees fun bindings inner => ?_)
      unfold nestedIn
      split
      · next less => exact shorter inner.length (size ▸ less) (agrees.child bindings) inner rfl
      · exact outer (agrees.child bindings) inner

end Correspondence.Effectful

/-! ### Computations in tied worlds -/

def Parallel {α β : Type} (R : World → World → Prop) (V : α → β → Prop) (m : Eval World α) (n : Eval World β) :
    Prop :=
  ∀ w w', R w w' → SameOutcome V (m w).1 (n w').1 ∧ R (m w).2 (n w').2

namespace Parallel
variable {α β : Type} {R : World → World → Prop} {V : α → β → Prop}

theorem pure {a : α} {b : β} (related : V a b) : Parallel R V (pure a) (pure b) := fun _ _ tied => ⟨.value related, tied⟩

theorem fail (f : Fault) : Parallel R V (throw f) (throw f) := fun _ _ tied => ⟨.fault f, tied⟩

theorem bind {α' β' : Type} {W : α' → β' → Prop} {m : Eval World α} {n : Eval World β} {k : α → Eval World α'}
    {l : β → Eval World β'} (first : Parallel R V m n) (next : ∀ a b, V a b → Parallel R W (k a) (l b)) :
    Parallel R W (m >>= k) (n >>= l) := by
  intro w w' tied
  obtain ⟨outcome, tied⟩ := first w w' tied
  rw [Eval.bind_apply, Eval.bind_apply]
  rcases left : m w with ⟨f | a, w₁⟩ <;> rcases right : n w' with ⟨g | b, w₁'⟩
  all_goals rw [left, right] at outcome tied
  · cases outcome
    exact ⟨.fault f, tied⟩
  · cases outcome
  · cases outcome
  · cases outcome with
    | value related => exact next a b related w₁ w₁' tied

theorem attempt {m n : Eval World α} (same : Parallel R Eq m n) : Parallel R Eq m.attempt n.attempt := by
  intro w w' tied
  obtain ⟨outcome, tied⟩ := same w w' tied
  rw [Eval.attempt_apply, Eval.attempt_apply, outcome.eq]
  exact ⟨.refl (fun _ => rfl) _, tied⟩

theorem eq {m n : Eval World α} (same : Parallel Eq Eq m n) : m = n := by
  funext w
  obtain ⟨outcome, tied⟩ := same w w rfl
  exact Prod.ext outcome.eq tied

theorem of_eq {m n : Eval World α} (same : m = n) : Parallel Eq Eq m n := by
  rintro w _ rfl
  rw [same]
  exact ⟨.refl (fun _ => rfl) _, rfl⟩

end Parallel

def parallel (R : World → World → Prop) : Correspondence World World where
  value := Eq
  holds := Parallel R
  applied := apply_eq_of_forall₂
  pure := Parallel.pure
  bind := Parallel.bind
  fail := Parallel.fail

theorem effectful_parallel {R : World → World → Prop} (tied : Tied True R) : (parallel R).Effectful where
  value := rfl
  attempt := Parallel.attempt
  draw w w' related := by
    have same := tied.generator trivial related
    refine ⟨.value (congrArg (·.next.1) same), ?_⟩
    change R { w with generator := w.generator.next.2 } { w' with generator := w'.generator.next.2 }
    rw [← same]
    exact tied.drawn trivial related _
  note e w w' related := ⟨.value trivial, tied.noted related e⟩

/-! ### Room for nested texts -/

/-- Computations of which the second does the same as the first, unless the first runs out of room. -/
def Deepens {α β : Type} (V : α → β → Prop) (m : Eval World α) (n : Eval World β) : Prop :=
  ∀ w, (m w).1 = .error .exhausted ∨ SameOutcome V (m w).1 (n w).1 ∧ (m w).2 = (n w).2

namespace Deepens
variable {α β : Type} {V : α → β → Prop}

theorem bind {α' β' : Type} {W : α' → β' → Prop} {m : Eval World α} {n : Eval World β} {k : α → Eval World α'}
    {l : β → Eval World β'} (first : Deepens V m n) (next : ∀ a b, V a b → Deepens W (k a) (l b)) :
    Deepens W (m >>= k) (n >>= l) := by
  intro w
  rw [Eval.bind_apply, Eval.bind_apply]
  rcases left : m w with ⟨f | a, w₁⟩ <;> rcases right : n w with ⟨g | b, w₁'⟩
  all_goals
    have outcome := first w
    rw [left, right] at outcome
    rcases outcome with exhausted | ⟨outcome, same⟩
  · cases exhausted
    exact .inl rfl
  · cases outcome
    exact .inr ⟨.fault f, same⟩
  · cases exhausted
    exact .inl rfl
  · cases outcome
  · cases exhausted
  · cases outcome
  · cases exhausted
  · cases outcome with
    | value related =>
      cases same
      exact next a b related w₁

theorem attempt {m n : Eval World Float} (same : Deepens Eq m n) : Deepens Eq m.attempt n.attempt := by
  intro w
  rw [Eval.attempt_apply, Eval.attempt_apply]
  rcases same w with exhausted | ⟨outcome, after⟩
  · rw [exhausted]
    exact .inl rfl
  · rw [outcome.eq, after]
    exact .inr ⟨.refl (fun _ => rfl) _, rfl⟩

theorem refl {V : α → α → Prop} (m : Eval World α) (related : ∀ a, V a a) : Deepens V m m := fun _ =>
  .inr ⟨.refl related _, rfl⟩

end Deepens

def deepens : Correspondence World World where
  value := Eq
  holds := Deepens
  applied := apply_eq_of_forall₂
  pure related := fun _ => .inr ⟨.value related, rfl⟩
  bind := Deepens.bind
  fail f := fun _ => .inr ⟨.fault f, rfl⟩

theorem effectful_deepens : deepens.Effectful where
  value := rfl
  attempt := Deepens.attempt
  draw := Deepens.refl drawn fun _ => rfl
  note e := Deepens.refl (noted e) fun _ => trivial

/-- More room changes no other result than that there is too little. -/
theorem deepens_evaluateWithin {depth depth' : Nat} (le : depth ≤ depth') {s s' : Scope} (agrees : s.Agrees s')
    (simulation : Option Simulation) (t : Text) :
    Deepens Eq (evaluateWithin depth s simulation t) (evaluateWithin depth' s' simulation t) := by
  obtain ⟨more, rfl⟩ := Nat.exists_eq_add_of_le le
  exact effectful_deepens.evaluateWithin more (fun _ _ _ _ => .inl rfl) depth agrees t

end Netlist
