import Mathlib.Data.List.TakeWhile
import Netlist.Library.Polynomial
import Netlist.Library.Table
import Netlist.Proofs.Real.Whole

/-!
Indices of the library. A lookup reads no point that a table does not have, whatever order its
points are in and wherever the search among them ends; and the arguments of `poly` are cut at
places that they have, so that every variable of a term has a value. It takes exactly the lists
that can be cut so.
-/
namespace Netlist

namespace Table
variable {α : Type} [Scalar α]

def Place.Within (count : Nat) : Place → Prop
  | undefined => True
  | .end index => index < count
  | segment index => 0 < index ∧ index < count

/-- A lookup refers to points of the table, if the search among them only ends behind the last one
where that is not behind the coordinate. -/
theorem placeAt_within (t : Table α) (x : α) {behind : Nat} (most : behind ≤ t.points.length)
    (all : behind = t.points.length → ∀ last ∈ t.points.getLast?, last.1 ≤ x) :
    (t.placeAt x behind).Within t.points.length := by
  unfold placeAt
  split
  · next first last head tail =>
    have nonempty : 0 < t.points.length := List.length_pos_of_mem (List.mem_of_getLast? tail)
    split
    · trivial
    · split
      · exact nonempty
      · split
        · exact Nat.sub_lt nonempty Nat.one_pos
        · next before =>
          have inside : behind ≠ t.points.length := fun same => before (all same last tail)
          split
          · exact Nat.sub_lt nonempty Nat.one_pos
          · next positive => exact ⟨Nat.pos_of_ne_zero positive, lt_of_le_of_ne most inside⟩
  · trivial

theorem place_within (t : Table α) (x : α) : (t.place x).Within t.points.length := by
  refine t.placeAt_within x (List.takeWhile_prefix _).length_le fun same last tail => ?_
  have whole := (List.takeWhile_prefix fun p : α × α => decide (p.1 ≤ x)).eq_of_length same
  simpa using List.takeWhile_eq_self_iff.mp whole last (List.mem_of_getLast? tail)

end Table

namespace Polynomial

theorem lt_of_mem_monomialsFrom {dimension degree least : Nat} {term : List Nat}
    (member : term ∈ monomialsFrom dimension degree least) : ∀ i ∈ term, i < dimension := by
  induction degree generalizing least term with
  | zero =>
    rcases List.mem_singleton.mp member with rfl
    simp
  | succ degree ih =>
    obtain ⟨first, inside, rest⟩ := List.mem_flatMap.mp member
    obtain ⟨tail, among, rfl⟩ := List.mem_map.mp rest
    intro i
    rw [List.mem_cons]
    rintro (rfl | later)
    · rw [List.mem_range'_1] at inside
      omega
    · exact ih among i later

theorem replicate_mem_monomialsFrom {dimension least : Nat} (below : least < dimension) (degree : Nat) :
    List.replicate degree least ∈ monomialsFrom dimension degree least := by
  induction degree with
  | zero => exact List.mem_singleton_self _
  | succ degree ih =>
    refine List.mem_flatMap.mpr ⟨least, ?_, List.mem_map_of_mem ih⟩
    rw [List.mem_range'_1]
    omega

theorem mem_termsFrom {dimension fuel degree count : Nat} {term : List Nat}
    (member : term ∈ termsFrom dimension fuel degree count) : ∃ degree, term ∈ monomials dimension degree := by
  induction fuel generalizing degree count with
  | zero => cases member
  | succ fuel ih =>
    unfold termsFrom at member
    dsimp only at member
    split at member
    · exact ⟨degree, List.mem_of_mem_take member⟩
    · rcases List.mem_append.mp member with here | later
      · exact ⟨degree, List.mem_of_mem_take here⟩
      · exact ih later

theorem length_termsFrom {dimension : Nat} (positive : 0 < dimension) {fuel count : Nat} (enough : count ≤ fuel) (degree : Nat) :
    (termsFrom dimension fuel degree count).length = count := by
  induction fuel generalizing degree count with
  | zero =>
    obtain rfl := Nat.le_zero.mp enough
    rfl
  | succ fuel ih =>
    have nonempty : 0 < (monomials dimension degree).length :=
      List.length_pos_of_mem (replicate_mem_monomialsFrom positive degree)
    unfold termsFrom
    dsimp only
    split
    · next all =>
      rw [List.length_take] at all ⊢
      omega
    · next left =>
      rw [List.length_take] at left
      rw [List.length_append, List.length_take, ih (by omega)]
      omega

theorem lt_of_mem_firstTerms {dimension count : Nat} {term : List Nat} (member : term ∈ firstTerms dimension count) :
    ∀ i ∈ term, i < dimension := by
  unfold firstTerms at member
  split at member
  · rcases List.mem_singleton.mp (List.mem_of_mem_take member) with rfl
    simp
  · obtain ⟨degree, member⟩ := mem_termsFrom member
    exact lt_of_mem_monomialsFrom member

theorem length_firstTerms {dimension : Nat} (positive : 0 < dimension) (count : Nat) :
    (firstTerms dimension count).length = count := by
  unfold firstTerms
  rw [if_neg positive.ne']
  exact length_termsFrom positive (Nat.le_refl _) 0

theorem length_terms_ofCoefficients {α : Type} [Scalar α] {dimension : Nat} (positive : 0 < dimension) (coefficients : List α) :
    coefficients.length ≤ (ofCoefficients dimension coefficients).terms.length := by
  unfold ofCoefficients
  dsimp only
  rw [length_firstTerms positive]
  split
  · exact Nat.le_succ _
  · exact Nat.le_refl _

theorem length_partials {α : Type} [Scalar α] (p : Polynomial α) (xs : List α) : (p.partials xs).length = p.dimension := by
  refine List.foldlRecOn (motive := fun out : List α => out.length = p.dimension) p.summands _ List.length_replicate ?_
  intro out same (c, term) _
  refine List.foldlRecOn (motive := fun out : List α => out.length = p.dimension) term.zipIdx _ same ?_
  intro out same (i, place) _
  rw [List.length_modify, same]

end Polynomial

namespace Library

/-- What `poly` takes: the dimension, which is a positive whole number, as many values and at least one coefficient. -/
structure Dimensioned (vs : List Float) (dimension : Nat) (xs coefficients : List Float) : Prop where
  arguments : vs = Float.ofNat dimension :: xs ++ coefficients
  positive : 0 < dimension
  values : xs.length = dimension
  given : coefficients ≠ []

/-- The terms of a polynomial refer to the values in the arguments only, and there is one for each coefficient. -/
structure Cut (vs : List Float) (dimension : Nat) (xs coefficients : List Float) : Prop extends
    Dimensioned vs dimension xs coefficients where
  indices : ∀ term ∈ (Polynomial.ofCoefficients dimension coefficients).terms, ∀ i ∈ term, i < dimension
  terms : coefficients.length ≤ (Polynomial.ofCoefficients dimension coefficients).terms.length

variable {vs : List Float} {dimension : Nat} {xs coefficients : List Float}

theorem Dimensioned.cut (dimensioned : Dimensioned vs dimension xs coefficients) : Cut vs dimension xs coefficients :=
  ⟨dimensioned, fun _ => Polynomial.lt_of_mem_firstTerms, Polynomial.length_terms_ofCoefficients dimensioned.positive _⟩

theorem Dimensioned.length (dimensioned : Dimensioned vs dimension xs coefficients) :
    vs.length = dimension + coefficients.length + 1 := by
  rw [dimensioned.arguments, List.length_append, List.length_cons, dimensioned.values]
  omega

theorem Dimensioned.accepted (short : vs.length ≤ 2 ^ 53) (dimensioned : Dimensioned vs dimension xs coefficients) :
    polynomialArguments vs = .ok (dimension, xs, coefficients) := by
  have count := dimensioned.length
  have nonempty := List.length_pos_of_ne_nil dimensioned.given
  obtain ⟨rfl, positive, values, -⟩ := dimensioned
  have small : (xs ++ coefficients).length - 1 < 2 ^ 53 := by
    rw [List.length_append]
    omega
  have number := Double.isNaN_ofNat positive (by omega)
  have least : ¬ Float.ofNat dimension < 1 := Double.not_ofNat_lt Nat.one_pos positive (by omega)
  have most : ¬ Float.ofNat dimension > Float.ofNat ((xs ++ coefficients).length - 1) :=
    Double.not_ofNat_lt positive (by rw [List.length_append]; omega) small
  have value := Double.toUInt64_ofNat positive (by omega)
  have whole := (Double.sub_truncate_beq_zero_iff number least most small).mpr (congrArg Float.ofNat value.symm)
  simp only [polynomialArguments, List.cons_append, number, least, most, whole, bne, value]
  simp [← values]

theorem polynomialArguments_ok {parts : Nat × List Float × List Float} (ok : polynomialArguments vs = .ok parts) :
    ∃ n rest, vs = n :: rest ∧ n.isNaN = false ∧ ¬ n < 1 ∧ (n - truncate n == 0) = true ∧
      ¬ n > Float.ofNat (rest.length - 1) ∧
      parts = (n.toUInt64.toNat, rest.take n.toUInt64.toNat, rest.drop n.toUInt64.toNat) := by
  unfold polynomialArguments at ok
  split at ok
  · cases ok
  · next n rest =>
    split at ok
    · cases ok
    · next whole =>
      split at ok
      · cases ok
      · next most =>
        cases ok
        simp only [Bool.or_eq_true, decide_eq_true_eq, not_or, Bool.not_eq_true, bne, Bool.not_eq_false'] at whole
        obtain ⟨⟨number, least⟩, whole⟩ := whole
        exact ⟨n, rest, rfl, number, least, whole, most, rfl⟩

theorem dimensioned_of_polynomialArguments (short : vs.length ≤ 2 ^ 53)
    (ok : polynomialArguments vs = .ok (dimension, xs, coefficients)) : Dimensioned vs dimension xs coefficients := by
  obtain ⟨n, rest, rfl, number, least, whole, most, same⟩ := polynomialArguments_ok ok
  cases same
  rw [List.length_cons] at short
  have small : rest.length - 1 < 2 ^ 53 := by omega
  obtain ⟨positive, bound⟩ := Double.toUInt64_bounds number least most small
  have own := (Double.sub_truncate_beq_zero_iff number least most small).mp whole
  refine ⟨?_, positive, ?_, ?_⟩
  · rw [← own, List.cons_append, List.take_append_drop]
  · rw [List.length_take]
    omega
  · rw [Ne, List.drop_eq_nil_iff]
    omega

/-- Exactly the lists that have a dimension in front of enough arguments are taken. -/
theorem polynomialArguments_eq_ok_iff (short : vs.length ≤ 2 ^ 53) :
    polynomialArguments vs = .ok (dimension, xs, coefficients) ↔ Dimensioned vs dimension xs coefficients :=
  ⟨dimensioned_of_polynomialArguments short, fun dimensioned => dimensioned.accepted short⟩

theorem polynomialArguments_eq_ok_iff_cut (short : vs.length ≤ 2 ^ 53) :
    polynomialArguments vs = .ok (dimension, xs, coefficients) ↔ Cut vs dimension xs coefficients :=
  (polynomialArguments_eq_ok_iff short).trans ⟨Dimensioned.cut, Cut.toDimensioned⟩

end Library

end Netlist
