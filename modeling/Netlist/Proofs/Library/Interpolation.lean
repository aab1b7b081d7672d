import Mathlib.Tactic.FieldSimp
import Mathlib.Tactic.Linarith
import Mathlib.Tactic.Ring
import Netlist.Proofs.Library.Derivatives

/-!
Tables in exact arithmetic, over the rational numbers. A table sorts its points and keeps the order of those with
the same coordinate. A lookup weighs the values of the points: its weights are those of a convex combination, they
are the derivatives by the values, and between two points the slope is the one of the line through them.
-/
namespace Netlist

namespace Table

/-! ### Sorted points -/

theorem precedes_trans (p q r : ℚ × ℚ) (first : Scalar.precedes p.1 q.1 = true) (second : Scalar.precedes q.1 r.1 = true) :
    Scalar.precedes p.1 r.1 = true :=
  decide_eq_true ((of_decide_eq_true first).trans (of_decide_eq_true second))

theorem precedes_total (p q : ℚ × ℚ) : (Scalar.precedes p.1 q.1 || Scalar.precedes q.1 p.1) = true := by
  simpa [Scalar.precedes] using le_total p.1 q.1

theorem pairwise_ofPoints (points : List (ℚ × ℚ)) : (ofPoints points).points.Pairwise fun p q => p.1 ≤ q.1 :=
  (List.pairwise_mergeSort precedes_trans precedes_total points).imp of_decide_eq_true

theorem perm_ofPoints (points : List (ℚ × ℚ)) : (ofPoints points).points.Perm points :=
  List.mergeSort_perm points _

/-- Sorting is stable: points with the same coordinate keep their order. -/
theorem filter_ofPoints (points : List (ℚ × ℚ)) (x : ℚ) :
    (ofPoints points).points.filter (·.1 == x) = points.filter (·.1 == x) := by
  have same : (points.filter (·.1 == x)).Pairwise fun p q => Scalar.precedes p.1 q.1 = true := by
    refine List.pairwise_of_forall_mem_list fun p member q member' => ?_
    have left : p.1 = x := by simpa using List.of_mem_filter member
    have right : q.1 = x := by simpa using List.of_mem_filter member'
    exact decide_eq_true (left.trans right.symm).le
  have kept := (List.sublist_mergeSort precedes_trans precedes_total same List.filter_sublist).filter (·.1 == x)
  simp only [List.filter_filter, Bool.and_self] at kept
  exact (kept.eq_of_length ((perm_ofPoints points).filter _).length_eq.symm).symm

/-! ### Where a coordinate lies -/

variable {t : Table ℚ} {x : ℚ}

def behind (t : Table ℚ) (x : ℚ) : Nat := (t.points.takeWhile fun p => decide (p.1 ≤ x)).length

theorem behind_eq_iff {i : Nat} (inside : i < t.points.length) : t.behind x = i ↔
    x < t.points[i].1 ∧ ∀ (j : Nat) (earlier : j < i), t.points[j].1 ≤ x := by
  have found : t.behind x = t.points.findIdx fun p => !decide (p.1 ≤ x) := by
    rw [behind, List.takeWhile_eq_take_findIdx_not, List.length_take, min_eq_left List.findIdx_le_length]
  rw [found, List.findIdx_eq inside]
  simp

theorem place_eq {first last : ℚ × ℚ} (head : t.points.head? = some first) (tail : t.points.getLast? = some last) (x : ℚ) :
    t.place x =
      if x ≤ first.1 then .end 0
      else if last.1 ≤ x then .end (t.points.length - 1)
      else
        match t.behind x with
        | 0 => .end (t.points.length - 1)
        | index => .segment index := by
  have number : Scalar.isUndefined x = false := by simp [Scalar.isUndefined]
  unfold place placeAt
  rw [head, tail]
  dsimp only
  rw [number]
  rfl

inductive Lies (t : Table ℚ) (x : ℚ) : Place → Prop
  | end {index : Nat} (inside : index < t.points.length) : Lies t x (.end index)
  | segment {i : Nat} (inside : i + 1 < t.points.length) (left : t.points[i].1 ≤ x) (right : x < t.points[i + 1].1) :
      Lies t x (.segment (i + 1))

theorem lies_place (nonempty : t.points ≠ []) (x : ℚ) : t.Lies x (t.place x) := by
  have within := t.place_within x
  rw [place_eq (List.head?_eq_some_head nonempty) (List.getLast?_eq_some_getLast nonempty)] at within ⊢
  split_ifs at within ⊢
  · exact .end within
  · exact .end within
  · cases is : t.behind x with
    | zero =>
      rw [is] at within
      exact .end within
    | succ i =>
      rw [is] at within
      obtain ⟨right, left⟩ := (behind_eq_iff within.2).mp is
      exact .segment within.2 (left i (Nat.lt_succ_self i)) right

/-! ### Weights -/

def share (p q : ℚ × ℚ) (x : ℚ) : ℚ := (x - p.1) / (q.1 - p.1)

def slopeOf (p q : ℚ × ℚ) : ℚ := (q.2 - p.2) / (q.1 - p.1)

theorem point_eq {i : Nat} (inside : i < t.points.length) : t.point i = t.points[i] :=
  List.getD_eq_getElem _ _ inside

theorem value_of_end {index : Nat} (is : t.place x = .end index) (inside : index < t.points.length) :
    t.value x = t.points[index].2 := by
  rw [value, is, ← point_eq inside]

theorem value_of_segment {i : Nat} (is : t.place x = .segment (i + 1)) (inside : i + 1 < t.points.length) :
    t.value x = t.points[i].2 + slopeOf t.points[i] t.points[i + 1] * (x - t.points[i].1) := by
  rw [value, is]
  dsimp only
  rw [Nat.add_sub_cancel, point_eq inside, point_eq (Nat.lt_of_succ_lt inside)]
  split
  · next same =>
    rw [eq_of_beq same, sub_self, mul_zero, add_zero]
  · rw [slopeOf]
    ring

theorem partials_of_end {index : Nat} (is : t.place x = .end index) :
    t.partials x = ⟨0, (t.points.map fun _ => 0).set index 1⟩ := by
  have number : Scalar.isUndefined x = false := by simp [Scalar.isUndefined]
  unfold partials
  rw [number, is]
  rfl

theorem partials_of_segment {i : Nat} (is : t.place x = .segment (i + 1)) (inside : i + 1 < t.points.length) :
    t.partials x = ⟨slopeOf t.points[i] t.points[i + 1], ((t.points.map fun _ => 0).set i
      (1 - share t.points[i] t.points[i + 1] x)).set (i + 1) (share t.points[i] t.points[i + 1] x)⟩ := by
  have number : Scalar.isUndefined x = false := by simp [Scalar.isUndefined]
  unfold partials
  rw [number, is]
  dsimp only
  rw [Nat.add_sub_cancel, point_eq inside, point_eq (Nat.lt_of_succ_lt inside)]
  rfl

def weigh (weights values : List ℚ) : ℚ := (List.zipWith (· * ·) weights values).sum

theorem weigh_set {weights values : List ℚ} {i : Nat} (inside : i < weights.length) (inside' : i < values.length) (w : ℚ) :
    weigh (weights.set i w) values = weigh weights values + (w - weights[i]) * values[i] := by
  have replaced : List.zipWith (· * ·) (weights.set i w) values = (List.zipWith (· * ·) weights values).set i (w * values[i]) := by
    refine List.ext_getElem (by simp) fun j _ _ => ?_
    simp only [List.getElem_zipWith, List.getElem_set]
    split
    · next same =>
      subst same
      rfl
    · rfl
  rw [weigh, replaced, List.sum_set', dif_pos (by simpa using ⟨inside, inside'⟩), List.getElem_zipWith, ← weigh]
  ring

theorem weigh_zero {α : Type} (as : List α) (values : List ℚ) : weigh (as.map fun _ => 0) values = 0 := by
  refine List.sum_eq_zero fun v member => ?_
  obtain ⟨j, bound, rfl⟩ := List.mem_iff_getElem.mp member
  simp

theorem weigh_one (weights : List ℚ) : weigh weights (weights.map fun _ => 1) = weights.sum := by
  rw [weigh, List.zipWith_map_right, List.zipWith_self]
  simp

theorem weigh_end {index : Nat} {values : List ℚ} (same : values.length = t.points.length) (inside : index < t.points.length) :
    weigh ((t.points.map fun _ => 0).set index 1) values = values[index] := by
  rw [weigh_set (by simpa using inside) (same ▸ inside), weigh_zero, List.getElem_map, sub_zero, one_mul, zero_add]

theorem weigh_segment {i : Nat} {values : List ℚ} (same : values.length = t.points.length) (inside : i + 1 < t.points.length)
    (s : ℚ) : weigh (((t.points.map fun _ => 0).set i (1 - s)).set (i + 1) s) values =
      values[i] + s * (values[i + 1] - values[i]) := by
  rw [weigh_set (by simpa using inside) (same ▸ inside), weigh_set (by simpa using Nat.lt_of_succ_lt inside) (by omega),
    weigh_zero, List.getElem_set_ne (by omega), List.getElem_map, List.getElem_map]
  ring

/-- A sum that is weighed with weights that are not negative lies between all bounds of the values. -/
theorem weigh_between {weights values : List ℚ} (same : weights.length = values.length) (weight : ∀ w ∈ weights, 0 ≤ w)
    {least greatest : ℚ} (bounds : ∀ v ∈ values, least ≤ v ∧ v ≤ greatest) :
    least * weights.sum ≤ weigh weights values ∧ weigh weights values ≤ greatest * weights.sum := by
  induction weights generalizing values with
  | nil => simp [weigh]
  | cons w weights ih =>
    obtain ⟨v, values, rfl⟩ := List.exists_cons_of_length_eq_add_one same.symm
    obtain ⟨positive, weight⟩ := List.forall_mem_cons.mp weight
    obtain ⟨here, bounds⟩ := List.forall_mem_cons.mp bounds
    obtain ⟨lower, upper⟩ := ih (Nat.succ.inj same) weight bounds
    have least_le := mul_le_mul_of_nonneg_right here.1 positive
    have le_greatest := mul_le_mul_of_nonneg_right here.2 positive
    rw [List.sum_cons, weigh, List.zipWith_cons_cons, List.sum_cons, ← weigh]
    constructor <;> linarith

/-! ### Lookups -/

theorem share_bounds {p q : ℚ × ℚ} (left : p.1 ≤ x) (right : x < q.1) : 0 ≤ share p q x ∧ share p q x ≤ 1 := by
  have wide : 0 < q.1 - p.1 := by linarith
  exact ⟨div_nonneg (by linarith) wide.le, (div_le_one wide).mpr (by linarith)⟩

/-- The weights of a lookup are those of a convex combination, which is its value. -/
theorem weights_convex (nonempty : t.points ≠ []) (x : ℚ) :
    (t.partials x).weights.length = t.points.length ∧ (∀ w ∈ (t.partials x).weights, 0 ≤ w) ∧
      (t.partials x).weights.sum = 1 ∧ t.value x = weigh (t.partials x).weights (t.points.map (·.2)) := by
  have zero : ∀ w ∈ t.points.map fun _ => (0 : ℚ), 0 ≤ w := by simp
  have lies := t.lies_place nonempty x
  generalize is : t.place x = place at lies
  cases lies with
  | «end» inside =>
    rw [partials_of_end is, value_of_end is inside]
    refine ⟨by simp, fun w member => ?_, ?_, ?_⟩
    · rcases List.mem_or_eq_of_mem_set member with among | rfl
      · exact zero w among
      · exact zero_le_one
    · -- A sum of weights weighs values that are all one.
      rw [← weigh_one, weigh_end (by simp) inside, List.getElem_map]
    · rw [weigh_end (by simp) inside, List.getElem_map]
  | @segment i inside left right =>
    have bounds := share_bounds left right
    have wide : t.points[i + 1].1 - t.points[i].1 ≠ 0 := by linarith
    rw [partials_of_segment is inside, value_of_segment is inside]
    refine ⟨by simp, fun w member => ?_, ?_, ?_⟩
    · rcases List.mem_or_eq_of_mem_set member with member | rfl
      · rcases List.mem_or_eq_of_mem_set member with among | rfl
        · exact zero w among
        · linarith
      · exact bounds.1
    · rw [← weigh_one, weigh_segment (by simp) inside, List.getElem_map, List.getElem_map, sub_self, mul_zero, add_zero]
    · rw [weigh_segment (by simp) inside, List.getElem_map, List.getElem_map, slopeOf, share]
      field_simp

/-- The rational numbers with another division. -/
abbrev dividing (quotient : ℚ → ℚ → ℚ) : Scalar ℚ := { (inferInstance : Scalar ℚ) with div := quotient }

/-- Lookups divide by no zero, so they do not depend on what division by zero gives. -/
theorem lookup_dividing (nonempty : t.points ≠ []) (x : ℚ) {quotient : ℚ → ℚ → ℚ}
    (agrees : ∀ a b, b ≠ 0 → quotient a b = a / b) :
    @value ℚ (dividing quotient) t x = t.value x ∧ @partials ℚ (dividing quotient) t x = t.partials x := by
  have same : @place ℚ (dividing quotient) t x = t.place x := rfl
  have lies := t.lies_place nonempty x
  generalize is : t.place x = place at lies
  rw [is] at same
  cases lies with
  | «end» inside =>
    unfold value partials
    rw [same, is]
    exact ⟨rfl, rfl⟩
  | @segment i inside left right =>
    have wide : (t.point (i + 1)).1 - (t.point i).1 ≠ 0 := by
      rw [point_eq inside, point_eq (Nat.lt_of_succ_lt inside)]
      linarith
    unfold value partials
    rw [same, is]
    dsimp only
    rw [Nat.add_sub_cancel]
    have shares := agrees (x - (t.point i).1) _ wide
    exact ⟨if_congr Iff.rfl rfl (congrArg ((t.point i).2 + ·) (agrees _ _ wide)),
      if_congr Iff.rfl rfl (congrArg₂ Partials.mk (agrees _ _ wide) (congrArg
        (fun s => ((t.points.map fun _ => (0 : ℚ)).set i (1 - s)).set (i + 1) s) shares))⟩

abbrev Sorted (t : Table ℚ) : Prop := t.points.Pairwise fun p q => p.1 ≤ q.1

theorem Sorted.le (sorted : t.Sorted) {i j : Nat} (order : i ≤ j) (inside : j < t.points.length) :
    t.points[i].1 ≤ t.points[j].1 := by
  rcases order.eq_or_lt with rfl | before
  · exact le_rfl
  · exact List.pairwise_iff_getElem.mp sorted i j _ _ before

theorem lookup_before {first : ℚ × ℚ} (head : t.points.head? = some first) (before : x ≤ first.1) :
    t.value x = first.2 ∧ (t.partials x).slope = 0 := by
  have nonempty : t.points ≠ [] := by
    rintro empty
    rw [empty] at head
    cases head
  have is : t.place x = .end 0 := by
    rw [place_eq head (List.getLast?_eq_some_getLast nonempty), if_pos before]
  have inside := List.length_pos_iff.mpr nonempty
  rw [List.head?_eq_getElem?, List.getElem?_eq_getElem inside] at head
  rw [value_of_end is inside, partials_of_end is, Option.some.inj head]
  exact ⟨rfl, rfl⟩

theorem Sorted.lookup_behind (sorted : t.Sorted) {last : ℚ × ℚ} (tail : t.points.getLast? = some last) (behind : last.1 < x) :
    t.value x = last.2 ∧ (t.partials x).slope = 0 := by
  have nonempty : t.points ≠ [] := by
    rintro empty
    rw [empty] at tail
    cases tail
  have inside := List.length_pos_iff.mpr nonempty
  have end_ : t.points.length - 1 < t.points.length := Nat.sub_lt inside Nat.one_pos
  have at_end : t.points[t.points.length - 1] = last := by
    rw [List.getLast?_eq_getElem?, List.getElem?_eq_getElem end_] at tail
    exact Option.some.inj tail
  have is : t.place x = .end (t.points.length - 1) := by
    have first : ¬ x ≤ (t.points.head nonempty).1 := by
      have least := sorted.le (Nat.zero_le (t.points.length - 1)) end_
      rw [at_end] at least
      rw [List.head_eq_getElem]
      linarith
    rw [place_eq (List.head?_eq_some_head nonempty) tail, if_neg first, if_pos behind.le]
  rw [value_of_end is end_, partials_of_end is, at_end]
  exact ⟨rfl, rfl⟩

theorem Sorted.place_between (sorted : t.Sorted) {i : Nat} (inside : i + 1 < t.points.length) (left : t.points[i].1 < x)
    (right : x < t.points[i + 1].1) : t.place x = .segment (i + 1) := by
  have nonempty : t.points ≠ [] := List.ne_nil_of_length_pos (by omega)
  have first : ¬ x ≤ (t.points.head nonempty).1 := by
    have least := sorted.le (Nat.zero_le i) (Nat.lt_of_succ_lt inside)
    rw [List.head_eq_getElem]
    linarith
  have last : ¬ (t.points.getLast nonempty).1 ≤ x := by
    have greatest := sorted.le (Nat.le_sub_one_of_lt inside) (Nat.sub_lt (by omega) Nat.one_pos)
    rw [List.getLast_eq_getElem]
    linarith
  have index : t.behind x = i + 1 := by
    refine (behind_eq_iff inside).mpr ⟨right, fun j earlier => ?_⟩
    exact (sorted.le (Nat.le_of_lt_succ earlier) (Nat.lt_of_succ_lt inside)).trans left.le
  rw [place_eq (List.head?_eq_some_head nonempty) (List.getLast?_eq_some_getLast nonempty), if_neg first, if_neg last, index]
  rfl

/-- Between two points in sequence the slope is that of the line which the values are on. -/
theorem Sorted.slope_between (sorted : t.Sorted) {i : Nat} (inside : i + 1 < t.points.length) {x' : ℚ}
    (left : t.points[i].1 < x) (right : x < t.points[i + 1].1) (left' : t.points[i].1 < x') (right' : x' < t.points[i + 1].1) :
    t.value x' - t.value x = (t.partials x).slope * (x' - x) := by
  have is := sorted.place_between inside left right
  rw [value_of_segment is inside, value_of_segment (sorted.place_between inside left' right') inside,
    partials_of_segment is inside]
  ring

/-- Lookups in a table of points in any order. The points are sorted, and those with the same coordinate keep their
order. No lookup divides by zero. Its weights, which are the derivatives by the values, are those of a convex
combination, and its value is this combination, so it lies between the least and the greatest value. Before the first
and behind the last point the value stays the same and the slope is zero. Between two points in sequence the slope is
that of the values. -/
theorem lookup_interpolates {points : List (ℚ × ℚ)} (nonempty : points ≠ []) (x : ℚ) :
    let t : Table ℚ := ofPoints points
    t.points.Perm points ∧ t.Sorted ∧ (∀ x, t.points.filter (·.1 == x) = points.filter (·.1 == x)) ∧
    (∀ quotient : ℚ → ℚ → ℚ, (∀ a b, b ≠ 0 → quotient a b = a / b) →
      @value ℚ (dividing quotient) t x = t.value x ∧ @partials ℚ (dividing quotient) t x = t.partials x) ∧
    (t.partials x).weights.length = t.points.length ∧ (∀ w ∈ (t.partials x).weights, 0 ≤ w) ∧
    (t.partials x).weights.sum = 1 ∧
    t.value x = (List.zipWith (· * ·) (t.partials x).weights (t.points.map (·.2))).sum ∧
    (∀ least greatest, (∀ p ∈ points, least ≤ p.2 ∧ p.2 ≤ greatest) → least ≤ t.value x ∧ t.value x ≤ greatest) ∧
    (∀ first ∈ t.points.head?, x < first.1 → t.value x = first.2 ∧ (t.partials x).slope = 0) ∧
    (∀ last ∈ t.points.getLast?, last.1 < x → t.value x = last.2 ∧ (t.partials x).slope = 0) ∧
    ∀ (i : Nat) (inside : i + 1 < t.points.length), t.points[i].1 < x → x < t.points[i + 1].1 →
      ∀ x', t.points[i].1 < x' → x' < t.points[i + 1].1 → t.value x' - t.value x = (t.partials x).slope * (x' - x) := by
  intro t
  have perm : t.points.Perm points := perm_ofPoints points
  have sorted : t.Sorted := pairwise_ofPoints points
  have nonempty : t.points ≠ [] := fun empty => nonempty (perm.symm.trans (.of_eq empty)).eq_nil
  obtain ⟨length, weight, one, weighed⟩ := weights_convex nonempty x
  refine ⟨perm, sorted, filter_ofPoints points, fun _ agrees => lookup_dividing nonempty x agrees, length, weight, one, weighed,
    fun least greatest bounds => ?_, fun first head before => lookup_before head before.le,
    fun last tail behind => sorted.lookup_behind tail behind,
    fun i inside left right x' left' right' => sorted.slope_between inside left right left' right'⟩
  have between : ∀ v ∈ t.points.map (·.2), least ≤ v ∧ v ≤ greatest := by
    intro v member
    obtain ⟨p, among, rfl⟩ := List.mem_map.mp member
    exact bounds p (perm.mem_iff.mp among)
  have bounded := weigh_between (by simpa using length) weight between
  rwa [one, mul_one, mul_one, ← weighed] at bounded

/-- Two of three points have the same coordinate, and all values of the table lie between those of its points. -/
theorem lookup_interpolates_step : [((3 : ℚ), (30 : ℚ)), (1, 20), (1, 10)] ≠ [] ∧
    let t : Table ℚ := ofPoints [((3 : ℚ), (30 : ℚ)), (1, 20), (1, 10)]
    t.points.filter (·.1 == 1) = [(1, 20), (1, 10)] ∧ (t.partials 2).weights.sum = 1 ∧ 10 ≤ t.value 2 ∧ t.value 2 ≤ 30 := by
  have nonempty : [((3 : ℚ), (30 : ℚ)), (1, 20), (1, 10)] ≠ [] := by decide
  obtain ⟨-, -, stable, -, -, -, one, -, between, -⟩ := lookup_interpolates nonempty 2
  exact ⟨nonempty, (stable 1).trans (by decide +kernel), one, between 10 30 (by decide +kernel)⟩

end Table

end Netlist
