import Mathlib.Data.List.Shortlex
import Netlist.Proofs.Library.Bounds

/-!
The terms of a polynomial. All terms below a degree, put one behind another degree by degree, are in
order and complete; a polynomial has the first of them, one for each coefficient, so it leaves none out.
-/
namespace Netlist.Polynomial

/-- A term in standard form: variables below the dimension, none in front of a smaller one. -/
structure IsTerm (dimension : Nat) (term : List Nat) : Prop where
  sorted : term.Pairwise (· ≤ ·)
  below : ∀ i ∈ term, i < dimension

abbrev Precedes : List Nat → List Nat → Prop := List.Shortlex (· < ·)

variable {dimension degree least count : Nat} {term : List Nat}

/-! ### The terms of one degree -/

theorem mem_monomialsFrom : term ∈ monomialsFrom dimension degree least ↔
    term.length = degree ∧ IsTerm dimension term ∧ ∀ i ∈ term, least ≤ i := by
  induction degree generalizing least term with
  | zero =>
    rw [monomialsFrom, List.mem_singleton, List.length_eq_zero_iff]
    exact ⟨fun empty => ⟨empty, by subst empty; exact ⟨.nil, nofun⟩, by subst empty; exact nofun⟩, fun found => found.1⟩
  | succ degree ih =>
    rw [monomialsFrom, List.mem_flatMap]
    constructor
    · rintro ⟨first, inside, member⟩
      obtain ⟨tail, among, rfl⟩ := List.mem_map.mp member
      obtain ⟨length, isTerm, behind⟩ := ih.mp among
      rw [List.mem_range'_1] at inside
      refine ⟨congrArg (· + 1) length, ⟨List.pairwise_cons.mpr ⟨behind, isTerm.sorted⟩, ?_⟩, ?_⟩
      · exact List.forall_mem_cons.mpr ⟨by omega, isTerm.below⟩
      · exact List.forall_mem_cons.mpr ⟨inside.1, fun i later => inside.1.trans (behind i later)⟩
    · rintro ⟨length, ⟨sorted, below⟩, atLeast⟩
      obtain ⟨first, tail, rfl⟩ := List.exists_cons_of_length_eq_add_one length
      obtain ⟨behind, sorted⟩ := List.pairwise_cons.mp sorted
      obtain ⟨here, below⟩ := List.forall_mem_cons.mp below
      have start : least ≤ first := atLeast first List.mem_cons_self
      refine ⟨first, ?_, List.mem_map_of_mem (ih.mpr ⟨Nat.succ.inj length, ⟨sorted, below⟩, behind⟩)⟩
      rw [List.mem_range'_1]
      omega

theorem mem_monomials : term ∈ monomials dimension degree ↔ term.length = degree ∧ IsTerm dimension term := by
  simp [monomials, mem_monomialsFrom]

theorem pairwise_monomialsFrom (dimension degree least : Nat) :
    (monomialsFrom dimension degree least).Pairwise (List.Lex (· < ·)) := by
  induction degree generalizing least with
  | zero => exact List.pairwise_singleton _ _
  | succ degree ih =>
    rw [monomialsFrom, List.pairwise_flatMap]
    constructor
    · intro first _
      exact List.pairwise_map.mpr ((ih first).imp .cons)
    · refine (List.pairwise_lt_range' (s := least)).imp fun less term member term' member' => ?_
      obtain ⟨_, _, rfl⟩ := List.mem_map.mp member
      obtain ⟨_, _, rfl⟩ := List.mem_map.mp member'
      exact .rel less

theorem pairwise_monomials (dimension degree : Nat) : (monomials dimension degree).Pairwise Precedes := by
  refine (pairwise_monomialsFrom dimension degree 0).imp_of_mem fun member member' lex => ?_
  exact .of_lex ((mem_monomials.mp member).1.trans (mem_monomials.mp member').1.symm) lex

/-! ### The terms of all degrees -/

def monomialsUpTo (dimension degree degrees : Nat) : List (List Nat) :=
  (List.range' degree degrees).flatMap (monomials dimension)

theorem mem_monomialsUpTo {degrees : Nat} : term ∈ monomialsUpTo dimension degree degrees ↔
    IsTerm dimension term ∧ degree ≤ term.length ∧ term.length < degree + degrees := by
  simp only [monomialsUpTo, List.mem_flatMap, List.mem_range'_1, mem_monomials]
  constructor
  · rintro ⟨_, between, rfl, isTerm⟩
    exact ⟨isTerm, between⟩
  · rintro ⟨isTerm, between⟩
    exact ⟨_, between, rfl, isTerm⟩

theorem pairwise_monomialsUpTo (dimension degree degrees : Nat) : (monomialsUpTo dimension degree degrees).Pairwise Precedes := by
  rw [monomialsUpTo, List.pairwise_flatMap]
  refine ⟨fun degree _ => pairwise_monomials dimension degree, ?_⟩
  refine (List.pairwise_lt_range' (s := degree)).imp fun less term member term' member' => .of_length_lt ?_
  rwa [(mem_monomials.mp member).1, (mem_monomials.mp member').1]

/-- The terms that are enumerated are the first ones of all. -/
theorem termsFrom_eq (dimension fuel degree count : Nat) :
    termsFrom dimension fuel degree count = (monomialsUpTo dimension degree fuel).take count := by
  induction fuel generalizing degree count with
  | zero => exact List.take_nil.symm
  | succ fuel ih =>
    have split : monomialsUpTo dimension degree (fuel + 1) =
        monomials dimension degree ++ monomialsUpTo dimension (degree + 1) fuel := by
      rw [monomialsUpTo, List.range'_succ, List.flatMap_cons]
      rfl
    rw [termsFrom, split, List.take_append, List.length_take]
    split
    · next all =>
      have finished : count - (monomials dimension degree).length = 0 := by omega
      rw [finished, List.take_zero, List.append_nil]
    · next more =>
      have whole : min count (monomials dimension degree).length = (monomials dimension degree).length := by omega
      rw [whole, ih]

/-! ### The first terms -/

/-- What precedes an element of a beginning of a list in order is in this beginning itself. -/
theorem mem_take_of_pairwise {α : Type} {R : α → α → Prop} [Std.Asymm R] {all : List α} (ordered : all.Pairwise R) {a b : α}
    (earlier : R a b) (member : a ∈ all) (taken : b ∈ all.take count) : a ∈ all.take count := by
  rw [← List.take_append_drop count all] at ordered member
  rcases List.mem_append.mp member with here | later
  · exact here
  · have backwards := (List.pairwise_append.mp ordered).2.2 b taken a later
    exact absurd backwards (Std.Asymm.asymm a b earlier)

theorem isTerm_of_mem_firstTerms (positive : 0 < dimension) (member : term ∈ firstTerms dimension count) : IsTerm dimension term := by
  rw [firstTerms, if_neg positive.ne', termsFrom_eq] at member
  exact (mem_monomialsUpTo.mp (List.mem_of_mem_take member)).1

theorem pairwise_firstTerms (positive : 0 < dimension) (count : Nat) : (firstTerms dimension count).Pairwise Precedes := by
  rw [firstTerms, if_neg positive.ne', termsFrom_eq]
  exact (pairwise_monomialsUpTo dimension 0 count).take

theorem mem_firstTerms_of_precedes (positive : 0 < dimension) {last : List Nat} (member : last ∈ firstTerms dimension count)
    (isTerm : IsTerm dimension term) (earlier : Precedes term last) : term ∈ firstTerms dimension count := by
  rw [firstTerms, if_neg positive.ne', termsFrom_eq] at member ⊢
  refine mem_take_of_pairwise (pairwise_monomialsUpTo dimension 0 count) earlier ?_ member
  obtain ⟨-, -, bounded⟩ := mem_monomialsUpTo.mp (List.mem_of_mem_take member)
  have noLonger : term.length ≤ last.length := by
    rcases List.shortlex_def.mp earlier with shorter | ⟨same, -⟩
    · exact shorter.le
    · exact same.le
  exact mem_monomialsUpTo.mpr ⟨isTerm, Nat.zero_le _, noLonger.trans_lt bounded⟩

/-- The terms of the polynomial with given coefficients. There is one for each coefficient, where a single
coefficient in one variable comes behind a constant zero; all are in standard form, they stand in order, so no
two are the same, and no term in front of the last one is left out. -/
theorem terms_enumerate {α : Type} [Scalar α] (positive : 0 < dimension) (coefficients : List α) :
    let p : Polynomial α := ofCoefficients dimension coefficients
    p.coefficients = (if dimension = 1 ∧ coefficients.length = 1 then Scalar.zero :: coefficients else coefficients) ∧
    p.terms.length = p.coefficients.length ∧
    (∀ term ∈ p.terms, IsTerm dimension term) ∧
    p.terms.Pairwise Precedes ∧ p.terms.Nodup ∧
    ∀ last ∈ p.terms.getLast?, ∀ term, IsTerm dimension term → Precedes term last → term ∈ p.terms := by
  intro p
  have ordered : p.terms.Pairwise Precedes := pairwise_firstTerms positive _
  refine ⟨rfl, length_firstTerms positive _, fun term => isTerm_of_mem_firstTerms positive, ordered, ?_, ?_⟩
  · exact ordered.imp ne_of_irrefl
  · intro last end_ term isTerm earlier
    exact mem_firstTerms_of_precedes positive (List.mem_of_getLast? end_) isTerm earlier

/-- Three variables, cut inside the second degree. -/
theorem terms_enumerate_cut :
    0 < 3 ∧ (ofCoefficients 3 (List.replicate 6 (0 : Float))).terms = [[], [0], [1], [2], [0, 0], [0, 1]] ∧
      ∀ term, IsTerm 3 term → Precedes term [0, 1] → term ∈ (ofCoefficients 3 (List.replicate 6 (0 : Float))).terms := by
  obtain ⟨-, -, -, -, -, complete⟩ := terms_enumerate (show 0 < 3 by decide) (List.replicate 6 (0 : Float))
  exact ⟨by decide, by decide, complete [0, 1] (by decide)⟩

end Netlist.Polynomial
