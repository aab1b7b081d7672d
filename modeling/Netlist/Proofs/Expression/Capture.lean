import Netlist.Proofs.Expression.Agreement
import Netlist.Proofs.Expression.Margins
import Netlist.Proofs.Expression.Reference

/-!
Texts as arguments. A text that has a value has the same value as the argument of a function that takes texts
and evaluates them: the argument ends where the text does, for the parentheses and quotes in an expression
are closed, and in a child of the scope it means the same.
-/
namespace Netlist

/-! ### Trees -/

/-- Induction over trees, with a hypothesis for each argument of a call. -/
theorem Tree.induct {P : Tree → Prop} (literal : ∀ v, P (.literal v)) (parameter : ∀ name, P (.parameter name))
    (reference : ∀ arguments, P (.reference arguments)) (capture : ∀ name arguments, P (.capture name arguments))
    (call : ∀ name es, (∀ e ∈ es, P e) → P (.call name es)) (sign : ∀ op e, P e → P (.sign op e))
    (binary : ∀ op a b, P a → P b → P (.binary op a b))
    (conditional : ∀ c a b, P c → P a → P b → P (.conditional c a b)) (e : Tree) : P e := by
  refine @Tree.rec P (fun es => ∀ e ∈ es, P e) literal parameter reference capture call sign binary
    conditional (fun _ member => nomatch member) (fun first rest here later e member => ?_) e
  rcases List.mem_cons.mp member with rfl | member
  · exact here
  · exact later e member

section Evaluation
variable {σ τ : Type} {C : Correspondence σ τ} {text text' : Text} {r : Resolver σ} {s : Resolver τ}

structure Resolver.Matches (C : Correspondence σ τ) (text text' : Text) (r : Resolver σ) (s : Resolver τ) : Prop where
  function? : ∀ name, s.function? name = r.function? name
  parameter : ∀ name, C.holds C.value (r.parameter name text) (s.parameter name text')
  unknown : ∀ name, C.holds C.value (r.unknown name text) (s.unknown name text')
  note : ∀ name, C.holds (fun _ _ => True) (r.note name) (s.note name)
  callValues : ∀ f {vs ws}, List.Forall₂ C.value vs ws → C.holds C.value (r.call f (.values vs)) (s.call f (.values ws))
  callTexts : ∀ f ts, C.holds C.value (r.call f (.raw ts)) (s.call f (.raw ts))

namespace Resolver.Matches

theorem callee (same : r.Matches C text text' s) (name : Text) : s.callee name = r.callee name := by
  rw [Resolver.callee, Resolver.callee, same.function?]

theorem announce (same : r.Matches C text text' s) (name : Text) :
    C.holds (fun _ _ => True) (r.announce name) (s.announce name) := by
  unfold Resolver.announce
  rw [same.callee]
  cases r.callee name with
  | builtin f => exact same.note name
  | function f => exact C.pure trivial
  | unknown name => exact C.pure trivial

theorem invoke (same : r.Matches C text text' s) (callee : Callee) {vs ws : List Float}
    (arguments : List.Forall₂ C.value vs ws) : C.holds C.value (r.invoke text callee vs) (s.invoke text' callee ws) := by
  cases callee with
  | function f => exact same.callValues f arguments
  | unknown name => exact same.unknown name
  | builtin f =>
    unfold Resolver.invoke
    dsimp only
    rw [← arguments.length_eq]
    split
    · exact C.pure (C.applied (fun vs => f.apply (vs.getD 0 0) (vs.getD 1 0)) arguments)
    · exact C.raise _

theorem invokeRaw (same : r.Matches C text text' s) (name : Text) (arguments : List Text) :
    C.holds C.value (r.invokeRaw text name arguments) (s.invokeRaw text' name arguments) := by
  unfold Resolver.invokeRaw
  rw [same.function?]
  cases r.function? name with
  | some f => exact same.callTexts f arguments
  | none => exact same.unknown name

theorem refer (same : r.Matches C text text' s) (arguments : List Text) :
    C.holds C.value (r.refer text arguments) (s.refer text' arguments) := by
  unfold Resolver.refer
  rw [same.function?]
  cases r.function? ['@'] with
  | none => exact same.unknown _
  | some f =>
    dsimp only
    split
    · exact same.callTexts f arguments
    · exact C.raise _

theorem combine (same : r.Matches C text text' s) (op : Connective) {a b a' b' : Float} (left : C.value a a')
    (right : C.value b b') : C.holds C.value (r.combine op a b) (s.combine op a' b') := by
  have both : List.Forall₂ C.value [a, b] [a', b'] := .cons left (.cons right .nil)
  rcases op with op | f
  · by_cases power : op = .power
    · subst power
      have plain := C.pure (Correspondence.applied₂ Float.pow left right)
      unfold Resolver.combine
      rw [same.function?]
      cases r.function? (chars "pow") with
      | none => exact plain
      | some f =>
        dsimp only
        split
        · exact plain
        · exact same.callValues f both
    · cases op <;> first | exact absurd rfl power | exact C.pure (Correspondence.applied₂ (BinaryOperator.apply _) left right)
  · exact same.callValues f both

theorem eval (same : r.Matches C text text' s) (e : Tree) : C.holds C.value (e.eval r text) (e.eval s text') := by
  induction e using Tree.induct with
  | literal v => exact C.pure (C.constant v)
  | parameter name => exact same.parameter name
  | reference arguments => exact same.refer arguments
  | capture name arguments => exact same.invokeRaw name arguments
  | call name es ih =>
    have all : C.holds (List.Forall₂ C.value) (Tree.evalAll r text es) (Tree.evalAll s text' es) := by
      induction es with
      | nil => exact C.pure .nil
      | cons e es rest =>
        refine C.bind (ih e List.mem_cons_self) fun v v' value => ?_
        exact C.bind (rest fun e member => ih e (List.mem_cons_of_mem _ member)) fun vs vs' values => C.pure (.cons value values)
    refine C.bind (same.announce name) fun _ _ _ => ?_
    rw [same.callee]
    exact C.bind all fun vs vs' values => same.invoke _ values
  | sign op e ih => exact Correspondence.map ih fun _ _ value => Correspondence.applied₁ op.apply value
  | binary op a b left right =>
    exact C.bind left fun _ _ value => C.bind right fun _ _ value' => same.combine op value value'
  | conditional c a b condition consequence otherwise =>
    refine C.bind condition fun _ _ value => C.bind consequence fun _ _ value' => C.bind otherwise fun _ _ value'' => ?_
    exact C.pure (Correspondence.applied₃ (fun c a b => if c != 0 then a else b) value value' value'')

end Resolver.Matches

theorem Tree.exists_of_evalAll {es : List Tree} {w w' : σ} {vs : List Float} (values : Tree.evalAll r text es w = (.ok vs, w')) :
    ∀ e ∈ es, ∃ w₁ v w₂, e.eval r text w₁ = (.ok v, w₂) := by
  induction es generalizing w w' vs with
  | nil => exact fun _ member => nomatch member
  | cons e es ih =>
    obtain ⟨v, w₁, first, later⟩ := Eval.bind_ok values
    obtain ⟨vs, w₂, others, -⟩ := Eval.bind_ok later
    exact List.forall_mem_cons.mpr ⟨⟨w, v, w₁, first⟩, ih others⟩

/-- A tree with a value has no references, where there is no function that gives theirs. -/
theorem Tree.unreferring_of_eval (absent : r.function? ['@'] = none)
    (silent : ∀ w v w', r.unknown ['@'] text w ≠ (.ok v, w')) {e : Tree} {w w' : σ} {v : Float}
    (value : e.eval r text w = (.ok v, w')) : e.Unreferring := by
  induction e using Tree.induct generalizing w w' v with
  | literal x => exact .literal x
  | parameter name => exact .parameter name
  | reference arguments =>
    rw [Tree.eval, Resolver.refer, absent] at value
    exact absurd value (silent w v w')
  | capture name arguments => exact .capture name arguments
  | call name es ih =>
    obtain ⟨_, w₁, -, value⟩ := Eval.bind_ok value
    obtain ⟨vs, w₂, all, -⟩ := Eval.bind_ok value
    refine .call fun e member => ?_
    obtain ⟨w₃, v, w₄, argument⟩ := Tree.exists_of_evalAll all e member
    exact ih e member argument
  | sign op e ih =>
    obtain ⟨v, w₁, operand, -⟩ := Eval.bind_ok value
    exact .sign (ih operand)
  | binary op a b left right =>
    obtain ⟨x, w₁, first, value⟩ := Eval.bind_ok value
    obtain ⟨y, w₂, second, -⟩ := Eval.bind_ok value
    exact .binary (left first) (right second)
  | conditional c a b condition consequence otherwise =>
    obtain ⟨x, w₁, first, value⟩ := Eval.bind_ok value
    obtain ⟨y, w₂, second, value⟩ := Eval.bind_ok value
    obtain ⟨z, w₃, third, -⟩ := Eval.bind_ok value
    exact .conditional (condition first) (consequence second) (otherwise third)

end Evaluation

/-! ### Values that are kept -/

/-- Computations of which the second has the value of the first, if that has one, and leaves the same world behind. -/
def Keeps {α β : Type} (V : α → β → Prop) (m : Eval World α) (n : Eval World β) : Prop :=
  ∀ w a w', m w = (.ok a, w') → ∃ b, n w = (.ok b, w') ∧ V a b

theorem Keeps.bind {α β α' β' : Type} {V : α → β → Prop} {W : α' → β' → Prop} {m : Eval World α} {n : Eval World β}
    {k : α → Eval World α'} {l : β → Eval World β'} (first : Keeps V m n) (next : ∀ a b, V a b → Keeps W (k a) (l b)) :
    Keeps W (m >>= k) (n >>= l) := by
  intro w a' w' value
  obtain ⟨a, w₁, value, later⟩ := Eval.bind_ok value
  obtain ⟨b, value', related⟩ := first w a w₁ value
  rw [Eval.bind_apply, value']
  exact next a b related w₁ a' w' later

theorem Deepens.keeps {α β : Type} {V : α → β → Prop} {m : Eval World α} {n : Eval World β} (deepens : Deepens V m n) :
    Keeps V m n := by
  intro w a w' value
  rcases deepens w with exhausted | ⟨outcome, same⟩
  · rw [value] at exhausted
    cases exhausted
  · rcases right : n w with ⟨f | b, w₁⟩
    all_goals
      rw [value, right] at outcome same
      cases outcome
    cases same
    exact ⟨b, rfl, ‹_›⟩

def keeps : Correspondence World World where
  value := Eq
  holds := Keeps
  applied := apply_eq_of_forall₂
  pure related := fun _ _ _ value => by
    cases value
    exact ⟨_, rfl, related⟩
  bind := Keeps.bind
  fail _ := fun _ _ _ value => nomatch value

namespace Scope
variable {s s' : Scope} {nested nested' : Nested} {simulation : Option Simulation} {t : Text}

theorem Agrees.matches (agrees : s.Agrees s') (text text' : Text)
    (inner : ∀ bindings t, Deepens Eq (nested (s.child bindings) simulation t) (nested' (s'.child bindings) simulation t)) :
    (s.resolver nested simulation).Matches keeps text text' (s'.resolver nested' simulation) where
  function? := agrees.function?
  parameter name := by
    dsimp only [Scope.resolver]
    rw [agrees.parameter?]
    cases (s.parameter? name).or (constant? name) with
    | some v => exact keeps.pure rfl
    | none => exact fun _ _ _ value => nomatch value
  unknown _ := fun _ _ _ value => nomatch value
  note _ := keeps.pure trivial
  callValues f vs ws equal := by
    rw [show keeps.value = Eq from rfl, List.forall₂_eq_eq_eq] at equal
    subst equal
    exact (effectful_deepens.run agrees inner _).keeps
  callTexts f ts := (effectful_deepens.run agrees inner _).keeps

end Scope

/-! ### A text as an argument -/

namespace Scope
variable {s : Scope} {simulation : Option Simulation} {t : Text} {w w' : World} {v : Float}

/-- A text with a value in a scope without references reads as a tree without references, which has that value. -/
theorem exists_tree (absent : s.function? ['@'] = none) {nested : Nested}
    (value : Machine.run (s.resolver nested simulation) t w = (.ok v, w')) :
    ∃ e, (s.resolver nested simulation).vocabulary.Reads t e ∧ e.Unreferring ∧
      e.eval (s.resolver nested simulation) t w = (.ok v, w') := by
  obtain ⟨e, reads⟩ := (Machine.run_sound (s.resolver nested simulation) t).of_ok value
  rw [reads.run_eq] at value
  exact ⟨e, reads, Tree.unreferring_of_eval absent (fun _ _ _ raised => by cases raised) value, value⟩

/-- A text that has a value has it without the white space around it, in a child of the scope, with as much room. -/
theorem evaluateWithin_trim {depth depth' : Nat} {e : Tree}
    (reads : (s.resolver (nestedIn depth t) simulation).vocabulary.Reads t e)
    (value : e.eval (s.resolver (nestedIn depth t) simulation) t w = (.ok v, w'))
    (le : depth ≤ depth') (room : depth = depth' → trim t = t) :
    evaluateWithin (depth' + 1) (s.child []) simulation (trim t) w = (.ok v, w') := by
  have agrees := Agrees.of_child s
  have inner (bindings : List (Text × Float)) (u : Text) : Deepens Eq (nestedIn depth t (s.child bindings) simulation u)
      (nestedIn depth' (trim t) ((s.child []).child bindings) simulation u) := by
    refine deepens_evaluateWithin ?_ (agrees.child bindings) simulation u
    rcases Nat.lt_or_eq_of_le le with more | same
    · split_ifs <;> omega
    · rw [room same, same]
  have reads' : ((s.child []).resolver (nestedIn depth' (trim t)) simulation).vocabulary.Reads (trim t) e :=
    ⟨[], reads.trimmed, rfl⟩
  obtain ⟨_, value, rfl⟩ := (agrees.matches t (trim t) inner).eval e w v w' value
  rw [evaluateWithin_succ, reads'.run_eq]
  exact value

/-- The function that evaluates the text of its argument, at one depth more if that has white space around it. -/
theorem evaluateWithin_lazy (library : s.function? (chars "lazy") = some Library.lazyFunction)
    (absent : s.function? ['@'] = none) (balanced : ∀ f ∈ s.operators, Balanced f.name)
    (undivided : Undivided t) {depth depth' : Nat} (value : evaluateWithin depth s simulation t w = (.ok v, w'))
    (le : depth ≤ depth') (room : depth = depth' → trim t = t) :
    evaluateWithin depth' s simulation (chars "lazy(" ++ t ++ chars ")") w = (.ok v, w') := by
  obtain ⟨depth, rfl⟩ : ∃ d, depth = d + 1 := by
    cases depth with
    | zero => cases value
    | succ depth => exact ⟨depth, rfl⟩
  obtain ⟨depth', rfl⟩ : ∃ d, depth' = d + 1 := ⟨depth' - 1, by omega⟩
  rw [evaluateWithin_succ] at value
  obtain ⟨e, reads, plain, value⟩ := exists_tree absent value
  have inner : evaluateWithin (depth' + 1) (s.child []) simulation (trim t) w = (.ok v, w') :=
    evaluateWithin_trim reads value (Nat.le_of_succ_le_succ le) fun same => room (congrArg (· + 1) same)
  -- The text of the argument ends where the text does.
  have closed : Balanced t := by
    obtain ⟨rest, derives, blank⟩ := reads
    have enters := (derives.enters balanced plain).trans (enters_skip rest)
    rw [blank] at enters
    obtain ⟨p, rfl, closed⟩ := enters
    rw [List.append_nil]
    exact closed 0
  have captured := captureArguments_whole closed undivided fun empty => reads.trimmed.starts (by rw [empty]; rfl)
  let text := chars "lazy(" ++ t ++ chars ")"
  let r := s.resolver (nestedIn depth' text) simulation
  have call : r.vocabulary.Reads text (.capture (chars "lazy") [trim t]) := by
    have texts : r.vocabulary.takesTexts (chars "lazy") = true := by
      change (s.function? (chars "lazy")).any Function.isRaw = true
      rw [library]
      rfl
    have head : callHead? text = some (chars "lazy", t ++ [')']) := rfl
    exact ⟨[], (Derives.capture head texts captured).lower (by decide), rfl⟩
  have shorter : (trim t).length < text.length := by
    have inside := (trim_inside t).length_le
    have opening : 0 < (chars "lazy(").length := by decide
    simp only [text, List.length_append]
    omega
  have invoked : r.invokeRaw text (chars "lazy") [trim t] =
      (Program.value [] (trim t)).run (nestedIn depth' text) s simulation := by
    unfold Resolver.invokeRaw
    rw [show r.function? (chars "lazy") = some Library.lazyFunction from library]
    rfl
  rw [evaluateWithin_succ, call.run_eq, Tree.eval, invoked, Program.value, Program.run, Eval.bind_apply, Eval.attempt_apply,
    nestedIn, if_pos shorter, inner]
  rfl

/-- A text without a comma outside of parentheses and quotes has, as the argument of `lazy`, the value that it has
by itself, and leaves the same world behind. Operators have to close the parentheses and quotes in their names.
Only white space around the text may make one level of depth more necessary. -/
theorem evaluate_lazy (library : s.function? (chars "lazy") = some Library.lazyFunction) (absent : s.function? ['@'] = none)
    (balanced : ∀ f ∈ s.operators, Balanced f.name) (undivided : Undivided t)
    (value : s.evaluate simulation t w = (.ok v, w')) :
    s.evaluate simulation (chars "lazy(" ++ t ++ chars ")") w = (.ok v, w') ∨
      trim t ≠ t ∧ (s.evaluate simulation (chars "lazy(" ++ t ++ chars ")") w).1 = .error .exhausted ∧
        evaluateWithin (evaluationDepth + 1) s simulation (chars "lazy(" ++ t ++ chars ")") w = (.ok v, w') := by
  by_cases same : trim t = t
  · exact .inl (evaluateWithin_lazy library absent balanced undivided value le_rfl fun _ => same)
  · have deeper := evaluateWithin_lazy library absent balanced undivided value (Nat.le_succ evaluationDepth)
      fun equal => absurd equal (Nat.succ_ne_self _).symm
    rcases deepens_evaluateWithin (Nat.le_succ evaluationDepth) (Agrees.refl s) simulation (chars "lazy(" ++ t ++ chars ")") w
      with exhausted | ⟨outcome, after⟩
    · exact .inr ⟨same, exhausted, deeper⟩
    · rw [deeper] at outcome after
      exact .inl (Prod.ext outcome.eq after)

/-- Raw and evaluated calls, parentheses and a quoted parenthesis, nested in each other. -/
theorem evaluate_lazy_nested :
    let s := Scope.standard .spice3f5
    let t := chars "lazy(def(\")\") + (1 + 2)) * max(3, lazy(4))"
    ∃ v w', s.function? (chars "lazy") = some Library.lazyFunction ∧ s.function? ['@'] = none ∧
      (∀ f ∈ s.operators, Balanced f.name) ∧ Undivided t ∧
      s.evaluate none t {} = (.ok v, w') ∧
      (s.evaluate none (chars "lazy(" ++ t ++ chars ")") {} = (.ok v, w') ∨
        trim t ≠ t ∧ (s.evaluate none (chars "lazy(" ++ t ++ chars ")") {}).1 = .error .exhausted ∧
          evaluateWithin (evaluationDepth + 1) s none (chars "lazy(" ++ t ++ chars ")") {} = (.ok v, w')) := by
  intro s t
  have library : s.function? (chars "lazy") = some Library.lazyFunction := rfl
  have absent : s.function? ['@'] = none := rfl
  have balanced : ∀ f ∈ s.operators, Balanced f.name := by decide +kernel
  have undivided : Undivided t := by decide +kernel
  have ok : (s.evaluate none t {}).1.isOk = true := by decide +kernel
  rcases value : s.evaluate none t {} with ⟨_ | v, w'⟩
  · rw [value] at ok
    cases ok
  · exact ⟨v, w', library, absent, balanced, undivided, rfl, evaluate_lazy library absent balanced undivided value⟩

/-- An operator whose name is a quote is read as a quote in an argument. -/
theorem not_evaluate_lazy_of_quote :
    ¬ ∀ (s : Scope) (simulation : Option Simulation) (t : Text) (w w' : World) (v : Float), s.WellNamed →
      s.function? (chars "lazy") = some Library.lazyFunction → s.function? ['@'] = none → Undivided t →
      s.evaluate simulation t w = (.ok v, w') → s.evaluate simulation (chars "lazy(" ++ t ++ chars ")") w = (.ok v, w') := by
  intro every
  let quote : Function :=
    { name := ['"'], isOperator := true, arity := .fixed 2,
      logic := .evaluated fun vs => .done (vs.foldl (fun v w => v * 10 + w) 0) }
  let s := (Scope.standard .spice3f5).define quote
  let t := chars "1\"2"
  have ok : (s.evaluate none t {}).1.isOk = true := by decide +kernel
  have failed : (s.evaluate none (chars "lazy(" ++ t ++ chars ")") {}).1.isOk = false := by decide +kernel
  rcases value : s.evaluate none t {} with ⟨_ | v, w'⟩
  · rw [value] at ok
    cases ok
  · rw [every s none t {} w' v ((wellNamed_standard _).define quote) rfl rfl (by decide +kernel) value] at failed
    cases failed

end Scope

end Netlist
