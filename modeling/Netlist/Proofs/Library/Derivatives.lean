import Mathlib.Algebra.MvPolynomial.PDeriv
import Netlist.Proofs.Library.Bounds

/-!
Polynomials in exact arithmetic, over the rational numbers. A polynomial has the value of the formal polynomial
that its coefficients and terms stand for, and its derivatives are those of the formal one: leaving out one
occurrence of a variable after the other is the product rule.
-/
namespace Netlist

/-- Rational numbers, with zero where there is no value. -/
instance : Scalar ℚ where
  zero := 0
  one := 1
  undefined := 0
  precedes a b := decide (a ≤ b)
  decideLT _ _ := inferInstance
  decideLE _ _ := inferInstance

namespace Scalar

theorem sum_eq (as : List ℚ) : sum as = as.sum := by
  rw [List.sum_eq_foldl, sum]
  exact congrArg (as.foldl (· + ·)) neg_zero

theorem product_eq (as : List ℚ) : product as = as.prod := List.prod_eq_foldl.symm

end Scalar

namespace Polynomial

open MvPolynomial

variable {xs : List ℚ} {v : Nat}

noncomputable def formalTerm (term : List Nat) : MvPolynomial Nat ℚ := (term.map X).prod

noncomputable def formal (p : Polynomial ℚ) : MvPolynomial Nat ℚ :=
  (p.summands.map fun (c, term) => C c * formalTerm term).sum

theorem termValue_cons (xs : List ℚ) (i : Nat) (term : List Nat) :
    termValue xs (i :: term) = variableAt xs i * termValue xs term := by
  rw [termValue, termValue, Scalar.product_eq, Scalar.product_eq, List.map_cons, List.prod_cons]

theorem eval_formalTerm (xs : List ℚ) (term : List Nat) :
    MvPolynomial.eval (variableAt xs) (formalTerm term) = termValue xs term := by
  induction term with
  | nil => simp [formalTerm, termValue, Scalar.product_eq]
  | cons i term ih =>
    rw [formalTerm, List.map_cons, List.prod_cons, map_mul, eval_X, ← formalTerm, ih, termValue_cons]

theorem eval_eq_formal (p : Polynomial ℚ) (xs : List ℚ) :
    p.eval xs = MvPolynomial.eval (variableAt xs) p.formal := by
  rw [Polynomial.eval, Scalar.sum_eq, formal, map_list_sum, List.map_map]
  refine congrArg List.sum (List.map_congr_left fun (c, term) _ => ?_)
  rw [Function.comp_apply, map_mul, eval_C, eval_formalTerm]

theorem eval_eq_sum (p : Polynomial ℚ) (xs : List ℚ) :
    p.eval xs = (List.zipWith (· * ·) p.coefficients (p.termValues xs)).sum := by
  rw [Polynomial.eval, Scalar.sum_eq, summands, termValues, List.zipWith_map_right, List.map_zip_eq_zipWith]
  rfl

/-! ### Derivatives -/

def termDerivative (xs : List ℚ) (v : Nat) (term : List Nat) : ℚ :=
  (term.zipIdx.map fun (i, place) => if i = v then termValue xs (term.eraseIdx place) else 0).sum

/-- The product rule. -/
theorem termDerivative_cons (xs : List ℚ) (v i : Nat) (term : List Nat) : termDerivative xs v (i :: term) =
    (if i = v then termValue xs term else 0) + variableAt xs i * termDerivative xs v term := by
  rw [termDerivative, List.zipIdx_cons', List.map_cons, List.sum_cons, List.map_map, termDerivative, ← List.sum_map_mul_left]
  refine congrArg₂ (· + ·) rfl (congrArg List.sum (List.map_congr_left fun (j, place) _ => ?_))
  change (if j = v then termValue xs (i :: term.eraseIdx place) else 0) = _
  rw [termValue_cons, mul_ite, mul_zero]

theorem eval_pderiv_formalTerm (xs : List ℚ) (v : Nat) (term : List Nat) :
    MvPolynomial.eval (variableAt xs) (pderiv v (formalTerm term)) = termDerivative xs v term := by
  induction term with
  | nil => simp [formalTerm, termDerivative]
  | cons i term ih =>
    have single : MvPolynomial.eval (variableAt xs) (pderiv v (X i)) = if i = v then 1 else 0 := by
      rw [pderiv_X, Pi.single_apply]
      split <;> simp
    rw [formalTerm, List.map_cons, List.prod_cons, ← formalTerm, Derivation.leibniz, smul_eq_mul, smul_eq_mul, map_add,
      map_mul, map_mul, eval_X, ih, single, eval_formalTerm, termDerivative_cons, add_comm, mul_ite, mul_one, mul_zero]

def shares (xs : List ℚ) (summand : ℚ × List Nat) : List (Nat × ℚ) :=
  summand.2.zipIdx.map fun (i, place) => (i, summand.1 * termValue xs (summand.2.eraseIdx place))

theorem partials_eq (p : Polynomial ℚ) (xs : List ℚ) : p.partials xs =
    (p.summands.flatMap (shares xs)).foldl (fun out share => out.modify share.1 (· + share.2)) (List.replicate p.dimension 0) := by
  rw [partials, List.foldl_flatMap]
  simp only [shares, List.foldl_map]
  rfl

/-- Amounts that are added to the entries of a list: each entry has grown by those that are added to it. -/
theorem getElem?_foldl_modify (amounts : List (Nat × ℚ)) (out : List ℚ) (v : Nat) :
    (amounts.foldl (fun out amount => out.modify amount.1 (· + amount.2)) out)[v]? =
      out[v]?.map (· + (amounts.map fun amount => if amount.1 = v then amount.2 else 0).sum) := by
  induction amounts generalizing out with
  | nil => simp
  | cons amount amounts ih =>
    rw [List.foldl_cons, ih, List.getElem?_modify, List.map_cons, List.sum_cons]
    cases out[v]? with
    | none => rfl
    | some a =>
      refine congrArg some ?_
      dsimp only
      split
      · rw [add_assoc]
      · rw [zero_add]

theorem sum_shares (xs : List ℚ) (v : Nat) (c : ℚ) (term : List Nat) :
    ((shares xs (c, term)).map fun share => if share.1 = v then share.2 else 0).sum = c * termDerivative xs v term := by
  rw [shares, List.map_map, termDerivative, ← List.sum_map_mul_left]
  refine congrArg List.sum (List.map_congr_left fun (i, place) _ => ?_)
  rw [Function.comp_apply, mul_ite, mul_zero]

theorem eval_pderiv_formal (p : Polynomial ℚ) (xs : List ℚ) (v : Nat) :
    MvPolynomial.eval (variableAt xs) (pderiv v p.formal) =
      ((p.summands.flatMap (shares xs)).map fun share => if share.1 = v then share.2 else 0).sum := by
  rw [formal, map_list_sum, map_list_sum, List.map_map, List.map_map, List.map_flatMap, List.flatMap_def, List.sum_flatten,
    List.map_map]
  refine congrArg List.sum (List.map_congr_left fun (c, term) _ => ?_)
  rw [Function.comp_apply, Function.comp_apply, Function.comp_apply, pderiv_C_mul, map_mul, eval_C, eval_pderiv_formalTerm,
    sum_shares]

theorem getElem?_partials (p : Polynomial ℚ) (xs : List ℚ) (below : v < p.dimension) :
    (p.partials xs)[v]? = some (MvPolynomial.eval (variableAt xs) (pderiv v p.formal)) := by
  rw [partials_eq, getElem?_foldl_modify, List.getElem?_replicate_of_lt below, eval_pderiv_formal, Option.map_some, zero_add]

/-- The polynomial with given coefficients at a point, in exact arithmetic. The point has a value for every variable
of a term; the polynomial has the value of the formal polynomial, which is the sum of the coefficients times the
values of their terms; and there is a derivative for every variable, which is that of the formal polynomial. -/
theorem derivatives_formal {dimension : Nat} (positive : 0 < dimension) (coefficients xs : List ℚ)
    (enough : dimension ≤ xs.length) :
    let p : Polynomial ℚ := ofCoefficients dimension coefficients
    (∀ term ∈ p.terms, ∀ i ∈ term, i < xs.length) ∧
    (p.termValues xs).length = p.coefficients.length ∧
    p.eval xs = (List.zipWith (· * ·) p.coefficients (p.termValues xs)).sum ∧
    p.eval xs = MvPolynomial.eval (variableAt xs) p.formal ∧
    (p.partials xs).length = dimension ∧
    ∀ v < dimension, (p.partials xs)[v]? = some (MvPolynomial.eval (variableAt xs) (pderiv v p.formal)) := by
  intro p
  refine ⟨fun term member i inside => ?_, ?_, eval_eq_sum p xs, eval_eq_formal p xs, length_partials p xs, ?_⟩
  · exact (lt_of_mem_firstTerms member i inside).trans_le enough
  · rw [termValues, List.length_map]
    exact length_firstTerms positive _
  · intro v below
    exact getElem?_partials p xs below

/-- A variable that occurs twice in a term: `1 + 2*a + 3*b + 4*a*a` at a point with a value to spare. -/
theorem derivatives_formal_square :
    0 < 2 ∧ 2 ≤ [5, 7, 9].length ∧ ((ofCoefficients 2 [1, 2, 3, 4] : Polynomial ℚ).partials [5, 7, 9])[0]? = some 42 ∧
      MvPolynomial.eval (variableAt [5, 7, 9]) (pderiv 0 (ofCoefficients 2 [1, 2, 3, 4] : Polynomial ℚ).formal) = 42 := by
  obtain ⟨-, -, -, -, -, derivatives⟩ := derivatives_formal (show 0 < 2 by decide) [1, 2, 3, 4] [5, 7, 9] (by decide)
  have computed : ((ofCoefficients 2 [1, 2, 3, 4] : Polynomial ℚ).partials [5, 7, 9])[0]? = some 42 := by decide +kernel
  exact ⟨by decide, by decide, computed, Option.some.inj ((derivatives 0 (by decide)).symm.trans computed)⟩

end Polynomial

end Netlist
