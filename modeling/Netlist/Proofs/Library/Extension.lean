import Netlist.Proofs.Expression.Visibility
import Netlist.Proofs.Real.Sign

/-!
Roots and logarithms below zero. Some dialects extend them there evenly or oddly, by their values at the magnitudes
of the arguments. By the chain rule the slopes of an extension are those at the magnitudes too, with the opposite
sign if it is even. The slopes of the library do not depend on the dialect: a root has none below zero, and that of a
logarithm has the opposite of the sign that its odd extension asks for.
-/
namespace Netlist.Library

inductive Parity where
  | even
  | odd
  deriving DecidableEq, Repr

def Parity.factor : Parity → Float
  | even => 1
  | odd => -1

def logarithms : List Text := [chars "log", chars "ln", chars "log10"]

/-- The roots and logarithms that dialects extend to negative arguments. -/
inductive Extended : Dialect → Text → Parity → Prop
  | magnitudeRoot : Extended .smartspice (chars "sqrt") .even
  | signedRoot : Extended .hspice (chars "sqrt") .odd
  | signedLogarithm {name} (logarithm : name ∈ logarithms) : Extended .smartspice name .odd

variable {d : Dialect} {name : Text} {parity : Parity} {x : Float}

/-! ### Values -/

theorem squareRoot_extended (extended : Extended d (chars "sqrt") parity) (negative : x < 0) :
    squareRoot d x = parity.factor * squareRoot d x.abs := by
  cases extended with
  | magnitudeRoot =>
    change x.abs.sqrt = 1 * x.abs.abs.sqrt
    rw [Double.abs_abs, Double.one_mul]
  | signedRoot =>
    have magnitude : -x = x.abs := by rw [← Double.neg_neg x.abs, Double.neg_abs negative]
    change (if x < 0 then -(-x).sqrt else x.sqrt) = -1 * if x.abs < 0 then -(-x.abs).sqrt else x.abs.sqrt
    rw [if_pos negative, if_neg (Double.not_abs_neg x), Double.neg_one_mul, magnitude]
  | signedLogarithm root => exact absurd root (by decide)

theorem logarithm_extended (log : Float → Float) (negative : x < 0) :
    logarithm .smartspice log x = -1 * logarithm .smartspice log x.abs := by
  have below : sign x = -1 := by
    rw [sign, if_neg (Double.not_pos_of_neg negative), if_pos negative]
  have above : sign x.abs = 1 := if_pos (Double.pos_abs negative)
  change sign x * log x.abs = -1 * (sign x.abs * log x.abs.abs)
  rw [below, above, Double.abs_abs, Double.one_mul]

/-! ### Slopes -/

def sloped (name : Text) (value slopes : Float → Float) : Function where
  name
  arity := .fixed 1
  logic := unary value
  derivative := slope slopes

theorem function?_sqrt (d : Dialect) : (Scope.standard d).function? (chars "sqrt") =
    some (sloped (chars "sqrt") (squareRoot d) fun x => 0.5 / x.sqrt) :=
  Scope.function?_standard (f := sloped (chars "sqrt") (squareRoot d) fun x => 0.5 / x.sqrt) (by simp [functions, powers, sloped])

/-- A logarithm has opposite slopes at opposite arguments, as the reciprocal of a multiple of its argument has. -/
theorem exists_function?_logarithm (d : Dialect) (listed : name ∈ logarithms) :
    ∃ log slopes : Float → Float, (∀ x, slopes (-x) = -slopes x) ∧
      (Scope.standard d).function? name = some (sloped name (logarithm d log) slopes) := by
  have natural : ∀ x : Float, 1 / -x = -(1 / x) := Double.div_neg 1
  have decimal (x : Float) : 1 / (-x * 2.302585092994046) = -(1 / (x * 2.302585092994046)) := by
    rw [Double.neg_mul, Double.div_neg]
  simp only [logarithms, List.mem_cons, List.not_mem_nil, or_false] at listed
  rcases listed with rfl | rfl | rfl
  · exact ⟨Float.log, (1 / ·), natural, Scope.function?_standard (f := sloped (chars "log") (logarithm d Float.log) (1 / ·))
      (by simp [functions, powers, sloped])⟩
  · exact ⟨Float.log, (1 / ·), natural, Scope.function?_standard (f := sloped (chars "ln") (logarithm d Float.log) (1 / ·))
      (by simp [functions, powers, sloped])⟩
  · exact ⟨Float.log10, _, decimal, Scope.function?_standard
      (f := sloped (chars "log10") (logarithm d Float.log10) fun x => 1 / (x * 2.302585092994046))
      (by simp [functions, powers, sloped])⟩

/-- The slopes of roots and logarithms below zero, beside those at the magnitudes. They are the same in all dialects,
and where a dialect extends a function to negative arguments, they are those of the extension only where these are
zero. -/
theorem slopes_miss_extensions (d : Dialect) (listed : name = chars "sqrt" ∨ name ∈ logarithms) (negative : x < 0) :
    ∃ f, (Scope.standard d).function? name = some f ∧ ∃ y z,
      f.derivatives? [x.abs] = some (.done [y]) ∧ f.derivatives? [x] = some (.done [z]) ∧
      (if name = chars "sqrt" then z.isNaN = true else z = -y) ∧
      ∀ parity, Extended d name parity →
        (∃ v, f.call (.values [x.abs]) = .done v ∧ f.call (.values [x]) = .done (parity.factor * v)) ∧
        ((z == -parity.factor * y) = true ↔ name ≠ chars "sqrt" ∧ (y == 0) = true) := by
  rcases listed with rfl | listed
  · have undefined : (0.5 / x.sqrt).isNaN = true := Double.isNaN_div (Double.isNaN_sqrt negative) 0.5
    refine ⟨_, function?_sqrt d, _, _, rfl, rfl, undefined, fun parity extended => ⟨⟨_, rfl, ?_⟩, ?_⟩⟩
    · exact congrArg Program.done (squareRoot_extended extended negative)
    · rw [Double.beq_of_isNaN undefined]
      exact ⟨nofun, fun found => absurd rfl found.1⟩
  · have other : name ≠ chars "sqrt" := by
      rintro rfl
      exact absurd listed (by decide)
    obtain ⟨log, slopes, opposite, found⟩ := exists_function?_logarithm d listed
    have slope : slopes x = -slopes x.abs := by rw [← opposite, Double.neg_abs negative]
    refine ⟨_, found, _, _, rfl, rfl, (if_neg other).mpr slope, fun parity extended => ?_⟩
    cases extended with
    | magnitudeRoot | signedRoot => exact absurd rfl other
    | signedLogarithm =>
      refine ⟨⟨_, rfl, congrArg Program.done (logarithm_extended log negative)⟩, ?_⟩
      change (slopes x == - -1 * slopes x.abs) = true ↔ _
      rw [Double.neg_neg, Double.one_mul, slope, Double.neg_beq_self, and_iff_right other]

/-- The logarithm that is extended oddly: its slope at `-2` is minus one half and not one half. -/
theorem slopes_miss_extensions_log : chars "log" ∈ logarithms ∧ (-2 : Float) < 0 ∧ Extended .smartspice (chars "log") .odd ∧
    ∃ f, (Scope.standard .smartspice).function? (chars "log") = some f ∧ ∃ y z,
      f.derivatives? [Float.abs (-2)] = some (.done [y]) ∧ f.derivatives? [-2] = some (.done [z]) ∧
      z = -y ∧ ((z == - -1 * y) = true ↔ (y == 0) = true) := by
  have listed : chars "log" ∈ logarithms := by decide
  have negative : (-2 : Float) < 0 := by decide +kernel
  have extended : Extended .smartspice (chars "log") .odd := .signedLogarithm listed
  obtain ⟨f, found, y, z, above, below, opposite, law⟩ := slopes_miss_extensions .smartspice (.inr listed) negative
  have other : chars "log" ≠ chars "sqrt" := by decide
  rw [if_neg other] at opposite
  exact ⟨listed, negative, extended, f, found, y, z, above, below, opposite, (law .odd extended).2.trans (and_iff_right other)⟩

/-- The slopes of an extension do not follow from those at the magnitudes. -/
theorem not_slopes_of_extensions :
    ¬ ∀ d name parity, Extended d name parity → ∀ f, (Scope.standard d).function? name = some f →
      ∀ (x : Float) y z, x < 0 → f.derivatives? [x.abs] = some (.done [y]) → f.derivatives? [x] = some (.done [z]) →
        (z == -parity.factor * y) = true := by
  intro every
  let log := sloped (chars "log") (logarithm .smartspice Float.log) (1 / ·)
  have found : (Scope.standard .smartspice).function? (chars "log") = some log :=
    Scope.function?_standard (f := log) (by simp [log, functions, powers, sloped])
  have law := every _ _ _ (.signedLogarithm (by decide)) log found (-2) _ _ (by decide +kernel) rfl rfl
  have fails : ((1 / (-2) : Float) == -Parity.odd.factor * (1 / Float.abs (-2))) = false := by decide +kernel
  exact Bool.false_ne_true (fails.symm.trans law)

end Netlist.Library
