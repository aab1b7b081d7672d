import Mathlib.Data.List.Basic
import Netlist.Library.Standard

/-!
What the functions of the library do. Three of them take the texts of their arguments, and `limit` may violate a
precondition. All others are functions of values that give a value or an error behind their check of the number of
arguments: they consult no scope and no simulation, evaluate no texts, and only the statistical ones draw random numbers.
-/
namespace Netlist

/-- Whether a program gives a value or an error of its own, perhaps after some draws. -/
def Program.Direct {α : Type} (draws : Prop) : Program α → Prop
  | done _ => True
  | fail (.unexpectedText ..) => False
  | fail _ => True
  | draw next => draws ∧ ∀ n, (next n).Direct draws
  | violated | parameter .. | evaluate .. | simulation _ | note .. => False

theorem Program.Direct.bind {α β : Type} {draws : Prop} {p : Program α} {k : α → Program β} (first : p.Direct draws)
    (next : ∀ a, (k a).Direct draws) : (p >>= k).Direct draws := by
  change (p.bind k).Direct draws
  induction p with
  | done a => exact next a
  | fail e => cases e <;> exact first
  | draw rest ih => exact ⟨first.1, fun n => ih n (first.2 n)⟩
  | violated | parameter | evaluate | simulation | note => exact first.elim

namespace Arity
variable {α : Type} {as : List α}

theorem accepts_one : (fixed 1).accepts as.length = true ↔ ∃ a, as = [a] := by
  simp [accepts, List.length_eq_one_iff]

theorem accepts_two : (fixed 2).accepts as.length = true ↔ ∃ a b, as = [a, b] := by
  simp [accepts, List.length_eq_two]

theorem accepts_three : (fixed 3).accepts as.length = true ↔ ∃ a b c, as = [a, b, c] := by
  simp [accepts, List.length_eq_three]

end Arity

namespace Function

structure Direct (draws : Prop) (f : Function) : Prop where
  plain : f.isRaw = false
  values : ∀ vs, (f.call (.values vs)).Direct draws
  derivatives : ∀ vs p, f.derivatives? vs = some p → p.Direct draws

theorem Direct.texts {draws : Prop} {f : Function} (direct : f.Direct draws) (ts : List Text) :
    ∃ e, f.call (.raw ts) = .fail e ∧ (Program.fail e : Program Float).Direct draws := by
  have plain := direct.plain
  unfold isRaw at plain
  unfold call
  split
  · exact ⟨_, rfl, trivial⟩
  · split at plain
    · cases plain
    · next body logic =>
      rw [logic]
      exact ⟨_, rfl, trivial⟩

theorem direct_of_values {draws : Prop} {f : Function} {body : List Float → Program Float} (logic : f.logic = .evaluated body)
    (values : ∀ vs, f.arity.accepts vs.length = true → (body vs).Direct draws)
    (derivatives : ∀ d, f.derivative = some d → ∀ vs, f.arity.accepts vs.length = true → (d vs).Direct draws) :
    f.Direct draws where
  plain := by rw [isRaw, logic]
  values vs := by
    unfold call
    rw [logic]
    split
    · trivial
    · next accepted => exact values vs (by simpa [Arguments.count] using accepted)
  derivatives vs p given := by
    obtain ⟨d, sloped, rfl⟩ := Option.map_eq_some_iff.mp given
    split
    · next accepted => exact derivatives d sloped vs accepted
    · trivial

theorem direct_of_flat {draws : Prop} {f : Function} {body : List Float → Program Float} (logic : f.logic = .evaluated body)
    (flat : f.derivative = none) (values : ∀ vs, f.arity.accepts vs.length = true → (body vs).Direct draws) :
    f.Direct draws :=
  direct_of_values logic values fun d given => by
    rw [flat] at given
    cases given

end Function

namespace Library

theorem direct_unary (g : Float → Float) {f : Function} (arity : f.arity = .fixed 1) (logic : f.logic = unary g)
    (derivative : f.derivative = none ∨ ∃ h, f.derivative = slope h) : f.Direct False := by
  refine Function.direct_of_values logic (fun vs accepted => ?_) fun d given vs accepted => ?_
  all_goals
    rw [arity] at accepted
    obtain ⟨x, rfl⟩ := Arity.accepts_one.mp accepted
  · trivial
  · rcases derivative with flat | ⟨h, sloped⟩
    · rw [flat] at given
      cases given
    · rw [sloped] at given
      cases given
      trivial

theorem direct_binary (g : Float → Float → Float) {f : Function} (arity : f.arity = .fixed 2) (logic : f.logic = binary g)
    (derivatives : ∀ d, f.derivative = some d → ∀ x y, (d [x, y]).Direct False) : f.Direct False := by
  refine Function.direct_of_values logic (fun vs accepted => ?_) fun d given vs accepted => ?_
  all_goals
    rw [arity] at accepted
    obtain ⟨x, y, rfl⟩ := Arity.accepts_two.mp accepted
  · trivial
  · exact derivatives d given x y

theorem direct_powers (d : Dialect) : ∀ f ∈ powers d, f.Direct False := by
  simp only [powers, List.forall_mem_cons]
  refine ⟨?pow, ?operator, ?sqrt, ?pwr, ?pwrs, ?log, ?ln, ?log10, ?db, List.forall_mem_nil _⟩
  case pow | operator => exact direct_binary (power d) rfl rfl fun _ given x y => by cases given; trivial
  case pwr | pwrs => exact direct_binary (magnitudePower d) rfl rfl fun _ given => by cases given
  case sqrt => exact direct_unary (squareRoot d) rfl rfl (.inr ⟨_, rfl⟩)
  case log | ln => exact direct_unary (logarithm d Float.log) rfl rfl (.inr ⟨_, rfl⟩)
  case log10 => exact direct_unary (logarithm d Float.log10) rfl rfl (.inr ⟨_, rfl⟩)
  case db => exact direct_unary (decibels d) rfl rfl (.inl rfl)

inductive Kind : Function → Prop
  | table : Kind tableFunction
  | lazy : Kind lazyFunction
  | defined : Kind definedFunction
  | limit : Kind limitFunction
  | constant {f : Function} (direct : f.Direct False) : Kind f
  | random {f : Function} (drawing : f ∈ statistics) (direct : f.Direct True) : Kind f

theorem direct_modulo (x y : Float) : (modulo x y).Direct False := by
  unfold modulo
  split <;> trivial

theorem kind_choices : ∀ f ∈ choices, Kind f := by
  simp only [choices, List.forall_mem_cons]
  refine ⟨?sgn, ?sign, ?min, ?max, .limit, ?conditional, ?round, ?int, ?nint, ?u, ?uramp, ?mod, .defined, .lazy, List.forall_mem_nil _⟩
  case sgn | sign => exact .constant (direct_unary sign rfl rfl (.inr ⟨_, rfl⟩))
  case min | max => exact .constant (Function.direct_of_flat rfl rfl fun _ _ => trivial)
  case conditional =>
    refine .constant (Function.direct_of_flat rfl rfl fun vs accepted => ?_)
    obtain ⟨condition, consequence, otherwise, rfl⟩ := Arity.accepts_three.mp accepted
    trivial
  case round | int | nint => exact .constant (direct_unary _ rfl rfl (.inl rfl))
  case u | uramp => exact .constant (direct_unary _ rfl rfl (.inr ⟨_, rfl⟩))
  case mod =>
    refine .constant (Function.direct_of_flat rfl rfl fun vs accepted => ?_)
    obtain ⟨x, y, rfl⟩ := Arity.accepts_two.mp accepted
    exact direct_modulo x y

theorem direct_standardNormal : standardNormal.Direct True := ⟨trivial, fun _ => ⟨trivial, fun _ => trivial⟩⟩

theorem direct_symmetricUniform : symmetricUniform.Direct True := ⟨trivial, fun _ => trivial⟩

theorem direct_statistics : ∀ f ∈ statistics, f.Direct True := by
  simp only [statistics, List.forall_mem_cons]
  refine ⟨?random, ?gauss, ?agauss, ?unif, ?aunif, ?flat, List.forall_mem_nil _⟩
  case random => exact Function.direct_of_flat rfl rfl fun _ _ => ⟨trivial, fun _ => trivial⟩
  case gauss | agauss =>
    refine Function.direct_of_flat rfl rfl fun vs _ => ?_
    split
    · exact direct_standardNormal.bind fun _ => trivial
    · exact direct_standardNormal.bind fun _ => trivial
    · trivial
  case unif | aunif =>
    refine Function.direct_of_flat rfl rfl fun vs accepted => ?_
    obtain ⟨nominal, variation, rfl⟩ := Arity.accepts_two.mp accepted
    exact direct_symmetricUniform.bind fun _ => trivial
  case flat =>
    refine Function.direct_of_flat rfl rfl fun vs accepted => ?_
    obtain ⟨width, rfl⟩ := Arity.accepts_one.mp accepted
    exact direct_symmetricUniform.bind fun _ => trivial

theorem direct_withArguments {α : Type} (vs : List Float) (g : Nat → List Float → List Float → α) :
    (withArguments vs g).Direct False := by
  unfold withArguments polynomialArguments
  split
  · trivial
  · next e refused =>
    split at refused
    · cases refused
      trivial
    · split at refused
      · cases refused
        trivial
      · split at refused <;> cases refused
        trivial

theorem direct_polynomialFunction : polynomialFunction.Direct False :=
  Function.direct_of_values rfl (fun vs _ => direct_withArguments vs _) fun _ given vs _ => by
    cases given
    exact direct_withArguments vs _

/-- The functions of the library, told apart by what they do. -/
theorem kind_of_mem {d : Dialect} {f : Function} (member : f ∈ functions d) : Kind f := by
  simp only [functions, List.mem_append, List.mem_cons, List.not_mem_nil, or_false] at member
  rcases member with ((power | choice) | random) | rfl | rfl
  · exact .constant (direct_powers d f power)
  · exact kind_choices f choice
  · exact .random random (direct_statistics f random)
  · exact .table
  · exact .constant direct_polynomialFunction

end Library

end Netlist
