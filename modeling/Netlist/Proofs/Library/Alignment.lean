import Netlist.Proofs.Expression.Visibility
import Netlist.Proofs.Library.Bounds

/-!
The derivatives of `poly` beside its arguments. They fail where its value does, and otherwise there is one for the
dimension, one for each variable, and one for each given coefficient, which is the value of the term that the
coefficient multiplies. The term of a single coefficient in one variable is not the first one.
-/
namespace Netlist

namespace Polynomial
variable {α : Type} [Scalar α] {dimension : Nat}

/-- The terms of given coefficients. Only a single coefficient in one variable has another term in front of its own. -/
def termsOf (dimension : Nat) (coefficients : List α) : List (List Nat) :=
  let terms := (ofCoefficients dimension coefficients).terms
  terms.drop (terms.length - coefficients.length)

/-- The summand in front of those of given coefficients. -/
def leading (dimension : Nat) (coefficients : List α) : List (α × List Nat) :=
  if dimension = 1 ∧ coefficients.length = 1 then [(Scalar.zero, [])] else []

theorem termsOf_single (c : α) : termsOf 1 [c] = [[0]] := by rfl

theorem ofCoefficients_of_not {coefficients : List α} (several : ¬ (dimension = 1 ∧ coefficients.length = 1)) :
    ofCoefficients dimension coefficients = ⟨dimension, coefficients, firstTerms dimension coefficients.length⟩ := by
  unfold ofCoefficients
  rw [if_neg several]

theorem length_termsOf (positive : 0 < dimension) (coefficients : List α) :
    (termsOf dimension coefficients).length = coefficients.length := by
  rw [termsOf, List.length_drop]
  have enough := length_terms_ofCoefficients positive coefficients
  omega

theorem summands_ofCoefficients (positive : 0 < dimension) (coefficients : List α) :
    (ofCoefficients dimension coefficients).summands =
      leading dimension coefficients ++ coefficients.zip (termsOf dimension coefficients) := by
  by_cases single : dimension = 1 ∧ coefficients.length = 1
  · obtain ⟨rfl, one⟩ := single
    obtain ⟨c, rfl⟩ := List.length_eq_one_iff.mp one
    rfl
  · rw [leading, if_neg single, List.nil_append, termsOf, ofCoefficients_of_not single]
    dsimp only
    rw [length_firstTerms positive, Nat.sub_self, List.drop_zero]
    rfl

end Polynomial

namespace Library
open Netlist.Polynomial
variable {vs : List Float} {dimension : Nat} {xs coefficients : List Float}

theorem function?_poly (d : Dialect) : (Scope.standard d).function? (chars "poly") = some polynomialFunction :=
  Scope.function?_standard (f := polynomialFunction) (by simp [functions])

theorem pos_of_polynomialArguments (ok : polynomialArguments vs = .ok (dimension, xs, coefficients)) : 0 < dimension := by
  obtain ⟨n, rest, -, number, least, -, -, same⟩ := polynomialArguments_ok ok
  cases same
  exact Double.toUInt64_pos number least

theorem call_poly (accepted : polynomialFunction.arity.accepts vs.length = true) :
    polynomialFunction.call (.values vs) =
      withArguments vs fun dimension xs coefficients => (ofCoefficients dimension coefficients).eval xs :=
  if_neg (by simpa [Arguments.count] using accepted)

theorem derivatives_poly (accepted : polynomialFunction.arity.accepts vs.length = true) :
    polynomialFunction.derivatives? vs = some (withArguments vs polynomialDerivatives) :=
  congrArg some (if_pos accepted)

theorem polynomialDerivatives_eq (dimension : Nat) (xs coefficients : List Float) :
    polynomialDerivatives dimension xs coefficients =
      0 :: (ofCoefficients dimension coefficients).partials xs ++ (termsOf dimension coefficients).map (termValue xs) := by
  unfold polynomialDerivatives termsOf termValues
  dsimp only
  rw [List.map_drop, List.length_map]

/-- The value of `poly` and its derivatives, for arguments in three parts: zero for the dimension, the derivatives by
the variables, and the values of the terms that the given coefficients have in the value. -/
structure Aligned (f : Function) (vs : List Float) (dimension : Nat) (xs coefficients : List Float) : Prop where
  value : f.call (.values vs) = .done ((ofCoefficients dimension coefficients).eval xs)
  derivatives : f.derivatives? vs = some (.done
    (0 :: (ofCoefficients dimension coefficients).partials xs ++ (termsOf dimension coefficients).map (termValue xs)))
  partials : ((ofCoefficients dimension coefficients).partials xs).length = dimension
  values : (termsOf dimension coefficients).length = coefficients.length
  summands : (ofCoefficients dimension coefficients).summands =
    leading dimension coefficients ++ coefficients.zip (termsOf dimension coefficients)
  single : dimension = 1 ∧ coefficients.length = 1 → termsOf dimension coefficients = [[0]]

def FailsAlike (f : Function) (vs : List Float) : Prop :=
  ∃ e, f.call (.values vs) = .fail e ∧ f.derivatives? vs = some (.fail e)

theorem aligned_of_polynomialArguments (accepted : polynomialFunction.arity.accepts vs.length = true)
    (ok : polynomialArguments vs = .ok (dimension, xs, coefficients)) :
    Aligned polynomialFunction vs dimension xs coefficients := by
  have positive := pos_of_polynomialArguments ok
  refine ⟨?_, ?_, length_partials _ xs, length_termsOf positive coefficients, summands_ofCoefficients positive coefficients, ?_⟩
  · rw [call_poly accepted]
    simp only [withArguments, ok]
  · rw [derivatives_poly accepted]
    simp only [withArguments, ok, polynomialDerivatives_eq]
  · rintro ⟨rfl, one⟩
    obtain ⟨c, rfl⟩ := List.length_eq_one_iff.mp one
    exact termsOf_single c

theorem failsAlike_of_arity (refused : ¬ polynomialFunction.arity.accepts vs.length = true) :
    FailsAlike polynomialFunction vs := by
  refine ⟨polynomialFunction.arityError vs.length, if_pos ?_, congrArg some (if_neg refused)⟩
  simpa [Arguments.count] using refused

theorem failsAlike_of_polynomialArguments (accepted : polynomialFunction.arity.accepts vs.length = true)
    {e : EvalError} (error : polynomialArguments vs = .error e) : FailsAlike polynomialFunction vs := by
  refine ⟨e, ?_, ?_⟩
  · rw [call_poly accepted]
    simp only [withArguments, error]
  · rw [derivatives_poly accepted]
    simp only [withArguments, error]

theorem Aligned.not_failsAlike {f : Function} (aligned : Aligned f vs dimension xs coefficients) : ¬ FailsAlike f vs := by
  rintro ⟨e, fails, -⟩
  rw [aligned.value] at fails
  cases fails

theorem Dimensioned.arity (dimensioned : Dimensioned vs dimension xs coefficients) :
    polynomialFunction.arity.accepts vs.length = true := by
  have count := dimensioned.length
  have positive := dimensioned.positive
  have nonempty := List.length_pos_of_ne_nil dimensioned.given
  change decide (3 ≤ vs.length) = true
  rw [decide_eq_true_iff]
  omega

theorem failsAlike_or_parted (vs : List Float) : FailsAlike polynomialFunction vs ∨
    ∃ n rest, vs = n :: rest ∧ polynomialArguments vs = .ok (n.toUInt64.toNat, rest.take n.toUInt64.toNat, rest.drop n.toUInt64.toNat) ∧
      Aligned polynomialFunction vs n.toUInt64.toNat (rest.take n.toUInt64.toNat) (rest.drop n.toUInt64.toNat) := by
  by_cases accepted : polynomialFunction.arity.accepts vs.length = true
  · cases parted : polynomialArguments vs with
    | error e => exact .inl (failsAlike_of_polynomialArguments accepted parted)
    | ok parts =>
      obtain ⟨n, rest, is, -, -, -, -, rfl⟩ := polynomialArguments_ok parted
      exact .inr ⟨n, rest, is, rfl, aligned_of_polynomialArguments accepted parted⟩
  · exact .inl (failsAlike_of_arity accepted)

theorem failsAlike_iff (short : vs.length ≤ 2 ^ 53) :
    FailsAlike polynomialFunction vs ↔ ¬ ∃ dimension xs coefficients, Dimensioned vs dimension xs coefficients := by
  constructor
  · rintro fails ⟨dimension, xs, coefficients, dimensioned⟩
    exact (aligned_of_polynomialArguments dimensioned.arity (dimensioned.accepted short)).not_failsAlike fails
  · intro refused
    rcases failsAlike_or_parted vs with fails | ⟨_, _, -, parted, -⟩
    · exact fails
    · exact absurd ⟨_, _, _, dimensioned_of_polynomialArguments short parted⟩ refused

/-- The value and the derivatives of `poly` both fail, and with the same error, or they go by the dimension in front of
the other arguments. Up to `2^53` arguments, they fail unless the dimension is a positive whole number with as many
values and some coefficients behind it, and otherwise each argument has one derivative. The lengths of longer lists,
which do not fit into memory, are no doubles any more. -/
theorem derivatives_aligned (d : Dialect) (vs : List Float) :
    ∃ f, (Scope.standard d).function? (chars "poly") = some f ∧
      (FailsAlike f vs ∨ ∃ n rest, vs = n :: rest ∧
        Aligned f vs n.toUInt64.toNat (rest.take n.toUInt64.toNat) (rest.drop n.toUInt64.toNat)) ∧
      (vs.length ≤ 2 ^ 53 →
        (FailsAlike f vs ↔ ¬ ∃ dimension xs coefficients, Dimensioned vs dimension xs coefficients) ∧
        ∀ dimension xs coefficients, Dimensioned vs dimension xs coefficients →
          Aligned f vs dimension xs coefficients ∧
            ∃ derivatives, f.derivatives? vs = some (.done derivatives) ∧ derivatives.length = vs.length) := by
  refine ⟨polynomialFunction, function?_poly d, ?_, fun short =>
    ⟨failsAlike_iff short, fun dimension xs coefficients dimensioned => ?_⟩⟩
  · exact (failsAlike_or_parted vs).imp_right fun ⟨n, rest, is, _, aligned⟩ => ⟨n, rest, is, aligned⟩
  · have aligned := aligned_of_polynomialArguments dimensioned.arity (dimensioned.accepted short)
    refine ⟨aligned, _, aligned.derivatives, ?_⟩
    rw [List.length_append, List.length_cons, List.length_map, aligned.partials, aligned.values, dimensioned.length]
    omega

/-- A single coefficient in one variable multiplies the variable. -/
theorem derivatives_aligned_single : [1, 3, (4 : Float)].length ≤ 2 ^ 53 ∧ Dimensioned [1, 3, 4] 1 [3] [4] ∧
    ∃ f, (Scope.standard .spice3f5).function? (chars "poly") = some f ∧
      f.call (.values [1, 3, 4]) = .done 12 ∧ f.derivatives? [1, 3, 4] = some (.done [0, 4, 3]) := by
  have short : [1, 3, (4 : Float)].length ≤ 2 ^ 53 := by decide
  have dimensioned : Dimensioned [1, 3, 4] 1 [3] [4] := ⟨rfl, Nat.one_pos, rfl, List.cons_ne_nil _ _⟩
  obtain ⟨f, found, -, aligns⟩ := derivatives_aligned .spice3f5 [1, 3, 4]
  obtain ⟨aligned, -⟩ := (aligns short).2 1 [3] [4] dimensioned
  have value : (ofCoefficients 1 [(4 : Float)]).eval [3] = 12 := by decide +kernel
  have derivatives : 0 :: (ofCoefficients 1 [(4 : Float)]).partials [3] ++ (termsOf 1 [(4 : Float)]).map (termValue [3]) =
      [0, 4, 3] := by decide +kernel
  exact ⟨short, dimensioned, f, found, by rw [aligned.value, value], by rw [aligned.derivatives, derivatives]⟩

end Library

end Netlist
