import Netlist.Expression.FreeNames
import Netlist.Proofs.Expression.Permitted
import Netlist.Proofs.Expression.Visibility

/-!
The scan for free names beside observed evaluation. As long as evaluation calls permitted functions
only, the scan takes down at least the names that it asks for, and if it ends with a value the scan
takes down no other names.
-/
namespace Netlist
variable {α β : Type}

theorem mem_insertSorted {t u : Text} {ts : List Text} : u ∈ insertSorted t ts ↔ u = t ∨ u ∈ ts := by
  induction ts with
  | nil => simp [insertSorted]
  | cons v rest ih =>
    unfold insertSorted
    split
    · next same => simp [same]
    · split
      · simp
      · simp [ih, or_left_comm]

namespace FreeNames

def Within (names more : FreeNames) : Prop :=
  names.parameters ⊆ more.parameters ∧ names.functions ⊆ more.functions

theorem Within.refl (names : FreeNames) : names.Within names := ⟨List.Subset.refl _, List.Subset.refl _⟩

theorem Within.trans {a b c : FreeNames} (first : a.Within b) (second : b.Within c) : a.Within c :=
  ⟨List.Subset.trans first.1 second.1, List.Subset.trans first.2 second.2⟩

def note (names : FreeNames) : Occurrence → FreeNames
  | .parameter name => names.addParameter name
  | .call f => names.addFunction f.name
  | .builtin name | .unknown name => names.addFunction name

theorem within_note (names : FreeNames) (occurrence : Occurrence) : names.Within (names.note occurrence) := by
  cases occurrence with
  | parameter name => exact ⟨fun _ member => mem_insertSorted.mpr (.inr member), List.Subset.refl _⟩
  | call | builtin | unknown => exact ⟨List.Subset.refl _, fun _ member => mem_insertSorted.mpr (.inr member)⟩

end FreeNames

namespace Trace

def names (trace : Trace) : FreeNames := trace.foldl FreeNames.note {}

theorem names_concat (trace : Trace) (occurrence : Occurrence) :
    names (trace ++ [occurrence]) = (names trace).note occurrence := by
  unfold names
  rw [List.foldl_append]
  rfl

theorem mem_names (trace : Trace) :
    (∀ n, n ∈ trace.names.parameters ↔ ∃ name ∈ trace.parameters, n = asciiLower name) ∧
      ∀ n, n ∈ trace.names.functions ↔ ∃ name ∈ trace.functions, n = asciiLower name := by
  induction trace using List.reverseRecOn with
  | nil => exact ⟨by simp [names, Trace.parameters], by simp [names, Trace.functions]⟩
  | append_singleton trace occurrence ih =>
    obtain ⟨parameters, functions⟩ := ih
    have reads : Trace.parameters (trace ++ [occurrence]) = Trace.parameters trace ++ Trace.parameters [occurrence] :=
      List.filterMap_append
    have asks : Trace.functions (trace ++ [occurrence]) = Trace.functions trace ++ Trace.functions [occurrence] :=
      List.filterMap_append
    rw [names_concat, reads, asks]
    simp only [List.mem_append, or_and_right, exists_or, ← parameters, ← functions]
    cases occurrence with
    | parameter name =>
      exact ⟨by simp [FreeNames.note, FreeNames.addParameter, mem_insertSorted, Trace.parameters, or_comm],
        by simp [FreeNames.note, FreeNames.addParameter, Trace.functions]⟩
    | call | builtin | unknown =>
      exact ⟨by simp [FreeNames.note, FreeNames.addFunction, Trace.parameters],
        by simp [FreeNames.note, FreeNames.addFunction, mem_insertSorted, Trace.functions, or_comm]⟩

end Trace

/-- Whether all functions that are called are permitted, going by a record or by the names that are taken
down. -/
def Scope.Allows (s : Scope) (trace : Trace) (names : FreeNames) : Prop :=
  (∀ f ∈ trace.calls, f.Permitted) ∨
    (s.WellNamed ∧ ∀ name ∈ names.functions, ∀ f, s.function? name = some f → f.Permitted)

def Scope.Knows (s : Scope) (trace : Trace) : Prop :=
  ∀ f ∈ trace.calls, f.Permitted ∧ (s.WellNamed → s.function? f.name = some f)

theorem Scope.Allows.mono {s : Scope} {trace more : Trace} {names wider : FreeNames} (allowed : s.Allows more wider)
    (grown : trace <+: more) (within : names.Within wider) : s.Allows trace names :=
  allowed.imp (fun all f member => all f ((grown.filterMap _).subset member))
    (And.imp_right fun all name member => all name (within.2 member))

/-- Evaluation beside a scan. In any case both records grow and values on one side have values on the
other. If evaluation calls permitted functions only, the scan takes down all that is asked for, and
nothing else behind an evaluation that ends with a value. -/
structure Recorded (root : Scope) (V : α → β → Prop) (m : Eval Observed α) (d : Eval FreeNames β) : Prop where
  grows : ∀ world trace, trace <+: (m (world, trace)).2.2
  widens : ∀ names : FreeNames, names.Within (d names).2
  image : ∀ {world trace a}, (m (world, trace)).1 = .ok a → ∃ b, V a b
  source : ∀ {names b}, (d names).1 = .ok b → ∃ a, V a b
  covers : ∀ world (trace : Trace), root.Allows (m (world, trace)).2.2 (d trace.names).2 → root.Knows trace →
    root.Knows (m (world, trace)).2.2 ∧ (Trace.names (m (world, trace)).2.2).Within (d trace.names).2 ∧
      ∀ a, (m (world, trace)).1 = .ok a →
        ∃ b, (d trace.names).1 = .ok b ∧ V a b ∧ (d trace.names).2 = Trace.names (m (world, trace)).2.2

namespace Recorded
variable {root : Scope} {V : α → β → Prop}

theorem pure {a : α} {b : β} (related : V a b) : Recorded root V (pure a) (pure b) where
  grows _ _ := List.prefix_rfl
  widens := .refl
  image ok := by cases ok; exact ⟨b, related⟩
  source ok := by cases ok; exact ⟨a, related⟩
  covers _ trace _ known := ⟨known, .refl _, fun _ ok => by cases ok; exact ⟨b, rfl, related, rfl⟩⟩

theorem failing (f : Fault) {d : Eval FreeNames β} (widens : ∀ names : FreeNames, names.Within (d names).2)
    (source : ∀ {names b}, (d names).1 = .ok b → ∃ a, V a b) : Recorded root V (throw f) d where
  grows _ _ := List.prefix_rfl
  widens := widens
  image ok := by cases ok
  source := source
  covers _ trace _ known := ⟨known, widens _, fun _ ok => by cases ok⟩

theorem fail (f : Fault) : Recorded root V (throw f) (throw f) := failing f .refl fun ok => by cases ok

theorem bind {α' β' : Type} {W : α' → β' → Prop} {m : Eval Observed α} {d : Eval FreeNames β}
    {k : α → Eval Observed α'} {l : β → Eval FreeNames β'} (first : Recorded root V m d)
    (next : ∀ a b, V a b → Recorded root W (k a) (l b)) : Recorded root W (m >>= k) (d >>= l) := by
  have grows (world : World) (trace : Trace) : (m (world, trace)).2.2 <+: ((m >>= k) (world, trace)).2.2 := by
    rw [Eval.bind_apply]
    rcases eq : m (world, trace) with ⟨f | a, state⟩
    · exact List.prefix_rfl
    · obtain ⟨b, related⟩ := first.image (congrArg Prod.fst eq)
      exact (next a b related).grows state.1 state.2
  have widens (names : FreeNames) : (d names).2.Within ((d >>= l) names).2 := by
    rw [Eval.bind_apply]
    rcases eq : d names with ⟨f | b, more⟩
    · exact .refl _
    · obtain ⟨a, related⟩ := first.source (congrArg Prod.fst eq)
      exact (next a b related).widens more
  refine ⟨fun world trace => (first.grows world trace).trans (grows world trace),
    fun names => (first.widens names).trans (widens names), fun {world trace a'} ok => ?_, fun {names b'} ok => ?_,
    fun world trace allowed known => ?_⟩
  · rw [Eval.bind_apply] at ok
    rcases eq : m (world, trace) with ⟨f | a, state⟩
    · rw [eq] at ok
      cases ok
    · rw [eq] at ok
      obtain ⟨b, related⟩ := first.image (congrArg Prod.fst eq)
      exact (next a b related).image ok
  · rw [Eval.bind_apply] at ok
    rcases eq : d names with ⟨f | b, more⟩
    · rw [eq] at ok
      cases ok
    · rw [eq] at ok
      obtain ⟨a, related⟩ := first.source (congrArg Prod.fst eq)
      exact (next a b related).source ok
  · have after := widens trace.names
    obtain ⟨known, within, same⟩ := first.covers world trace (allowed.mono (grows world trace) after) known
    rw [Eval.bind_apply m] at allowed ⊢
    rcases eq : m (world, trace) with ⟨f | a, world₁, trace₁⟩
    · rw [eq] at within known
      exact ⟨known, within.trans after, fun _ ok => by cases ok⟩
    · rw [eq] at allowed same known
      obtain ⟨b, ok, related, names⟩ := same a rfl
      have rest := (next a b related).covers world₁ trace₁
      rw [Eval.bind_apply] at allowed ⊢
      rcases eq' : d trace.names with ⟨f | b', more⟩
      · rw [eq'] at ok
        cases ok
      · rw [eq'] at ok names allowed
        cases ok
        rw [← show more = trace₁.names from names] at rest
        exact rest allowed known

end Recorded

def recorded (root : Scope) : Correspondence Observed FreeNames where
  value _ _ := True
  holds := Recorded root
  applied _ _ _ _ := trivial
  pure := Recorded.pure
  bind := Recorded.bind
  fail := Recorded.fail

/-- The value of a text that a program asks for is passed on, and so is its error. -/
theorem Program.observe_value (nested : Evaluator Observed) (s : Scope) (simulation : Option Simulation)
    (bindings : List (Text × Float)) (t : Text) :
    (value bindings t).observe nested s simulation = nested (s.child bindings) simulation t := by
  funext state
  change ((nested (s.child bindings) simulation t).attempt >>= _ : Eval Observed Float) state = _
  rw [Eval.bind_apply, Eval.attempt_apply]
  rcases nested (s.child bindings) simulation t state with ⟨(e | _ | _) | v, after⟩ <;> rfl

theorem Program.observe_bind (nested : Evaluator Observed) (s : Scope) (simulation : Option Simulation)
    (p : Program α) (k : α → Program β) :
    (p >>= k).observe nested s simulation =
      p.observe nested s simulation >>= fun a => (k a).observe nested s simulation := by
  change (p.bind k).observe nested s simulation = _
  induction p with
  | done | fail | violated => rfl
  | parameter name next ih =>
    simp only [Program.bind, Program.observe, ih, bind_assoc]
  | evaluate bindings t next ih =>
    simp only [Program.bind, Program.observe, ih, bind_assoc]
  | draw next ih =>
    simp only [Program.bind, Program.observe, ih, bind_assoc]
  | simulation next ih => exact ih simulation
  | note e next ih =>
    simp only [Program.bind, Program.observe, ih, bind_assoc]

namespace Recorded
open FreeNames
variable {root : Scope}

/-- A scan may pass over the errors on which evaluation ends. -/
theorem attempted {m : Eval Observed Float} {d : Eval FreeNames Float} (scanned : Recorded root (fun _ _ => True) m d) :
    Recorded root (fun _ _ => True) m d.attempt where
  grows := scanned.grows
  widens names := by
    rw [Eval.attempt_apply]
    exact scanned.widens names
  image _ := ⟨.ok 0, trivial⟩
  source _ := ⟨0, trivial⟩
  covers world trace allowed known := by
    rw [Eval.attempt_apply] at allowed ⊢
    obtain ⟨known, within, same⟩ := scanned.covers world trace allowed known
    refine ⟨known, within, fun a ok => ?_⟩
    obtain ⟨b, ok, -, names⟩ := same a ok
    exact ⟨.ok b, by rw [ok]; rfl, trivial, names⟩

theorem values {nested : Evaluator Observed} {s : Scope} {simulation : Option Simulation} {scan : Text → Eval FreeNames Float}
    {ts : List Text} (scanned : ∀ t ∈ ts, Recorded root (fun _ _ => True) (nested (s.child []) simulation t) (scan t)) :
    Recorded root (fun _ _ => True) ((Program.values ts).observe nested s simulation) (scanAll scan ts) := by
  induction ts with
  | nil => exact .pure trivial
  | cons t ts ih =>
    unfold Program.values scanAll
    rw [Program.observe_bind, Program.observe_value]
    refine (scanned t List.mem_cons_self).attempted.bind fun v _ _ => ?_
    rw [Program.observe_bind, ← bind_pure (scanAll scan ts)]
    exact (ih fun t member => scanned t (List.mem_cons_of_mem _ member)).bind fun vs _ _ => .pure trivial

theorem texts {nested : Evaluator Observed} {s : Scope} {simulation : Option Simulation} {scan : Text → Eval FreeNames Float}
    {ts : List Text} (scanned : ∀ t ∈ ts, Recorded root (fun _ _ => True) (nested (s.child []) simulation t) (scan t)) :
    Recorded root (fun _ _ => True) ((Program.values ts).observe nested s simulation)
      (scanAll scan ts >>= fun _ => Pure.pure (0 : Float)) := by
  rw [← bind_pure ((Program.values ts).observe nested s simulation)]
  exact (values scanned).bind fun _ _ _ => .pure trivial

theorem detached {draws : Prop} {p : Program Float} (apart : p.Detached draws) (nested : Evaluator Observed) (s : Scope) (simulation : Option Simulation)
    (v : Float) : Recorded root (fun _ _ => True) (p.observe nested s simulation) (Pure.pure v) := by
  have same (world : World) (trace : Trace) : (p.observe nested s simulation (world, trace)).2.2 = trace := by
    induction p generalizing world with
    | done | fail | violated => rfl
    | parameter name next ih => exact apart.1.elim
    | evaluate bindings t next ih => exact apart.1.elim
    | draw next ih => exact ih _ (apart.2 _) { world with generator := world.generator.next.2 }
    | simulation next ih => exact ih simulation (apart simulation) world
    | note e next ih => exact ih apart { world with events := world.events ++ [e] }
  refine ⟨fun world trace => ?_, .refl, fun _ => ⟨v, trivial⟩, fun _ => ⟨v, trivial⟩, fun world trace _ known => ?_⟩
  · exact (same world trace).symm ▸ List.prefix_rfl
  · rw [same]
    exact ⟨known, .refl _, fun _ _ => ⟨v, rfl, trivial, rfl⟩⟩

theorem noted (occurrence : Occurrence) (other : ∀ f, occurrence ≠ .call f) :
    Recorded root (fun _ _ => True) (record occurrence) (modify (·.note occurrence)) where
  grows _ trace := List.prefix_append trace _
  widens names := within_note names occurrence
  image _ := ⟨(), trivial⟩
  source _ := ⟨(), trivial⟩
  covers _ trace _ known := by
    have names := Trace.names_concat trace occurrence
    refine ⟨fun f member => ?_, ?_, fun _ _ => ⟨(), rfl, trivial, names.symm⟩⟩
    · change f ∈ Trace.calls (trace ++ [occurrence]) at member
      unfold Trace.calls at member
      rw [List.filterMap_append, List.mem_append] at member
      rcases member with earlier | here
      · exact known f earlier
      · cases occurrence with
        | call g => exact absurd rfl (other g)
        | parameter | builtin | unknown => cases here
    · change FreeNames.Within (Trace.names (trace ++ [occurrence])) (trace.names.note occurrence)
      rw [names]
      exact .refl _

theorem call {f : Function} {m : Eval Observed Float} {d : Eval FreeNames Float}
    (grows : ∀ world trace, trace <+: (m (world, trace)).2.2) (widens : ∀ names : FreeNames, names.Within (d names).2)
    (found : root.WellNamed → root.function? f.name = some f)
    (related : f.Permitted → Recorded root (fun _ _ => True) m d) :
    Recorded root (fun _ _ => True) (record (.call f) >>= fun _ => m) (modify (·.addFunction f.name) >>= fun _ => d) where
  grows world trace := (List.prefix_append trace _).trans (grows world (trace ++ [.call f]))
  widens names := (within_note names (.call f)).trans (widens (names.addFunction f.name))
  image _ := ⟨0, trivial⟩
  source _ := ⟨0, trivial⟩
  covers world trace allowed known := by
    change root.Allows (m (world, trace ++ [.call f])).2.2 (d (trace.names.addFunction f.name)).2 at allowed
    have permitted : f.Permitted := by
      rcases allowed.mono (grows world (trace ++ [.call f])) (widens _) with all | ⟨named, all⟩
      · exact all f (by simp [Trace.calls])
      · refine all (asciiLower f.name) (mem_insertSorted.mpr (.inl rfl)) f ?_
        rw [← found named]
        exact root.function?_congr (foldCase_asciiLower _)
    have knows : root.Knows (trace ++ [.call f]) := by
      intro g member
      unfold Trace.calls at member
      rw [List.filterMap_append, List.mem_append] at member
      rcases member with earlier | here
      · exact known g earlier
      · rcases List.mem_singleton.mp here with rfl
        exact ⟨permitted, found⟩
    have rest := (related permitted).covers world (trace ++ [.call f])
    rw [Trace.names_concat] at rest
    exact rest allowed knows

end Recorded

namespace FreeNames

/-- A permitted function asks for no more than the texts of its arguments do. -/
theorem recorded_texts {root : Scope} {f : Function} (permitted : f.Permitted) {nested : Evaluator Observed} {s : Scope}
    {simulation : Option Simulation} {scan : Text → Eval FreeNames Float} {ts : List Text}
    (scanned : ∀ t ∈ ts, Recorded root (fun _ _ => True) (nested (s.child []) simulation t) (scan t)) :
    Recorded root (fun _ _ => True) ((f.call (.raw ts)).observe nested s simulation)
      (scanAll scan ts >>= fun _ => pure (0 : Float)) := by
  have failing (fault : Fault) : Recorded root (fun _ _ => True) (throw fault : Eval Observed Float)
      (scanAll scan ts >>= fun _ => pure (0 : Float)) :=
    .failing fault (Recorded.texts scanned).widens fun _ => ⟨0, trivial⟩
  rcases permitted with rfl | rfl | ⟨plain, -⟩
  · unfold Function.call
    split
    · exact failing _
    · change Recorded root _ (Program.observe nested s simulation (if ts.length % 2 = 0 then _ else _)) _
      split
      · exact failing _
      · rw [Program.observe_bind]
        refine (Recorded.values scanned).bind fun vs _ _ => ?_
        cases vs with
        | nil => exact .failing _ .refl fun _ => ⟨0, trivial⟩
        | cons x rest => exact .pure trivial
  · unfold Function.call
    split
    · exact failing _
    · rcases ts with _ | ⟨t, _ | ⟨u, ts⟩⟩
      · exact failing _
      · change Recorded root _ ((Program.value [] t).observe nested s simulation) ((scan t).attempt >>= _ >>= _)
        rw [Program.observe_value, ← bind_pure (nested (s.child []) simulation t), bind_assoc]
        exact (scanned t List.mem_cons_self).attempted.bind fun _ _ _ => .pure trivial
      · exact failing _
  · unfold Function.isRaw at plain
    unfold Function.call
    split
    · exact failing _
    · split at plain
      · cases plain
      · next body logic =>
        rw [logic]
        exact failing _

/-- The meaning of names in a scope beside the scan of a text, if its arguments are evaluated beside
theirs. -/
theorem related_recorded {root : Scope} {depth : Nat} {s : Scope} {simulation : Option Simulation} {text : Text}
    {scan : Text → Eval FreeNames Float} (functions : s.function? = root.function?) (operators : s.operators = root.operators)
    (scanned : ∀ t, t.length < text.length →
      Recorded root (fun _ _ => True) (observedIn depth text (s.child []) simulation t) (scan t)) :
    (s.observer (observedIn depth text) simulation).Related (recorded root) text (recorder s scan) := by
  have found {f : Function} (offered : (s.observer (observedIn depth text) simulation).Offers f) (named : root.WellNamed) :
      root.function? f.name = some f := by
    rcases offered with ⟨name, called⟩ | operator
    · exact named.function?_name ((congrFun functions name).symm.trans called)
    · exact (named.mem_operators.mp (operators ▸ operator)).2
  have grows (f : Function) (arguments : Arguments) := Program.observe_grows (f.call arguments) depth text s simulation
  exact {
    function? _ := rfl
    operators _ := rfl
    parameter name := by
      refine (Recorded.noted (.parameter name) (by simp)).bind fun _ _ _ => ?_
      cases (s.parameter? name).or (constant? name) with
      | some v => exact .pure trivial
      | none => exact .failing _ .refl fun _ => ⟨0, trivial⟩
    unknown name := (Recorded.noted (.unknown name) (by simp)).bind fun _ _ _ =>
      .failing _ .refl fun _ => ⟨0, trivial⟩
    note name := Recorded.noted (.builtin name) (by simp)
    callValues f vs ws offered _ := Recorded.call (grows f _) .refl (found offered) fun permitted => by
      rcases permitted with rfl | rfl | ⟨-, detached⟩
      · unfold Function.call
        split <;> exact .failing _ .refl fun _ => ⟨0, trivial⟩
      · unfold Function.call
        split <;> exact .failing _ .refl fun _ => ⟨0, trivial⟩
      · exact Recorded.detached (detached vs) _ s simulation 0
    callTexts f ts offered parts := by
      have inner := fun t member => scanned t (parts t member).2
      exact Recorded.call (d := scanAll scan ts >>= fun _ => pure 0) (grows f _) (Recorded.texts inner).widens
        (found offered) fun permitted => recorded_texts permitted inner }

theorem scanWithin_child (s : Scope) (bound : Nat) : scanWithin (s.child []) bound = scanWithin s bound := by
  induction bound with
  | zero => rfl
  | succ bound ih =>
    funext t
    change Machine.run (recorder (s.child []) (scanWithin (s.child []) bound)) t = _
    rw [ih]
    rfl

/-- Evaluation at any depth is taken down by a scan that may go as deep as the text is long. -/
theorem recorded_scanWithin {root : Scope} (depth : Nat) {s : Scope} (functions : s.function? = root.function?)
    (operators : s.operators = root.operators) (simulation : Option Simulation) {bound : Nat} {t : Text}
    (fits : t.length < bound) :
    Recorded root (fun _ _ => True) (observeWithin (depth + 1) s simulation t) (scanWithin s bound t) := by
  induction bound generalizing s t with
  | zero => omega
  | succ bound ih =>
    rw [observeWithin_succ]
    refine Correspondence.holds_run (C := recorded root) (related_recorded functions operators fun inner less => ?_)
    unfold observedIn
    rw [if_pos less, ← scanWithin_child]
    have functions : (s.child []).function? = root.function? := functions
    have operators : (s.child []).operators = root.operators := operators
    exact ih functions operators (Nat.lt_of_lt_of_le less (Nat.le_of_lt_succ fits))

end FreeNames

end Netlist
