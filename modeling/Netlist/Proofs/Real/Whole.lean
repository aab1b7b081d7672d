import Netlist.Proofs.Real.Sign
import Netlist.Real.Rounding

/-!
Which doubles are whole numbers. Below `2^53` these are the ones that truncation leaves alone, and each of
them is the conversion of the number that it is converted to.
-/
namespace Netlist.Double
open Float.Model Float.Model.UnpackedFloat

/-! ### Differences -/

theorem parts_sub (x y : Float) :
    parts (x - y) = (Float.Model.pack (UnpackedFloat.sub Format.binary64 (parts x) (parts y))).unpack := rfl

theorem sub_same_exponent {m m' : Nat} {e : Int} (positive : 0 < m) (positive' : 0 < m') (less : m' ≤ m) :
    UnpackedFloat.sub Format.binary64 (.finite .positive m e positive) (.finite .positive m' e positive') =
      UnpackedFloat.normalize Format.binary64 (m - m' : Nat) e .positive := by
  simp [UnpackedFloat.sub, decreaseExponent, Sign.apply, Int.ofNat_sub less]

/-- A difference of doubles with one exponent is rounded to zero only if it is zero. -/
theorem sub_beq_zero_iff {x y : Float} {m m' : Nat} {e : Int} {positive : 0 < m} {positive' : 0 < m'}
    (left : parts x = .finite .positive m e positive) (right : parts y = .finite .positive m' e positive')
    (less : m' ≤ m) (small : m < 2 ^ 53) (low : -1022 ≤ e) (high : e ≤ 971) : (x - y == 0) = true ↔ m = m' := by
  rw [beq_eq, parts_sub, left, right, sub_same_exponent positive positive' less, parts_zero]
  rcases Nat.eq_or_lt_of_le less with rfl | less
  · have zero : UnpackedFloat.normalize Format.binary64 (0 : Nat) e .positive = .zero .positive := by
      simp [UnpackedFloat.normalize]
    rw [Nat.sub_self, zero]
    exact iff_of_true rfl rfl
  · have remains : 0 < m - m' := by omega
    have bound : (m - m').log2 < 53 := (Nat.log2_lt remains.ne').mpr (by omega)
    have fits := normal_of_lt remains (by omega)
    have normal : Normal ((m - m') * 2 ^ (52 - (m - m').log2)) (e - (52 - (m - m').log2 : Nat)) :=
      ⟨fits.least, fits.most, by omega, by omega⟩
    rw [normalize_pos remains, round_exact remains (by omega) low, unpack_pack normal]
    simp [UnpackedFloat.compare, less.ne']

/-! ### Whole parts -/

theorem log2_div {m j : Nat} (least : 2 ^ 52 ≤ m) (most : m < 2 ^ 53) (fits : j ≤ 52) : (m / 2 ^ j).log2 = 52 - j := by
  have positive := Nat.two_pow_pos j
  have nonzero : 1 ≤ m / 2 ^ j :=
    (Nat.one_le_div_iff positive).mpr ((Nat.pow_le_pow_right (by decide) fits).trans least)
  rw [Nat.log2_eq_iff (by omega)]
  constructor
  · rw [Nat.le_div_iff_mul_le positive, ← Nat.pow_add, show 52 - j + j = 52 by omega]
    exact least
  · rw [Nat.div_lt_iff_lt_mul positive, ← Nat.pow_add, show 52 - j + 1 + j = 53 by omega]
    exact most

theorem parts_whole {m j : Nat} (least : 2 ^ 52 ≤ m) (most : m < 2 ^ 53) (fits : j ≤ 52) :
    ∃ positive, parts (Float.ofNat (m / 2 ^ j)) = .finite .positive (m / 2 ^ j * 2 ^ j) (-j) positive := by
  have nonzero : 0 < m / 2 ^ j :=
    (Nat.one_le_div_iff (Nat.two_pow_pos j)).mpr ((Nat.pow_le_pow_right (by decide) fits).trans least)
  have is := parts_ofNat nonzero (lt_of_le_of_lt (Nat.div_le_self _ _) most)
  simp only [log2_div least most fits, show 52 - (52 - j) = j by omega] at is
  exact ⟨_, is⟩

theorem toFloat_eq {n : UInt64} (positive : 0 < n.toNat) (small : n.toNat < 2 ^ 53) : n.toFloat = Float.ofNat n.toNat :=
  eq_of_parts ((parts_toFloat positive small).trans (parts_ofNat positive small).symm)

theorem truncate_eq {x : Float} {k : Nat} (number : x.isNaN = false) (least : ¬ x < 1) (most : ¬ x > Float.ofNat k)
    (small : k < 2 ^ 53) : truncate x = Float.ofNat x.toUInt64.toNat := by
  obtain ⟨m, j, normal, is, fits, low, high⟩ := parts_between number least most small
  have value := toUInt64_of_parts is (lt_of_le_of_lt high small)
  have positive : ¬ x < 0 := by
    rw [lt_iff, is, parts_zero]
    simp [UnpackedFloat.compare]
  have nonzero : (x == 0) = false := by
    rw [beq_eq, is, parts_zero]
    rfl
  unfold truncate
  rw [if_neg positive, nonzero, if_neg Bool.false_ne_true]
  split
  · exact toFloat_eq (by omega) (by omega)
  · next large =>
    -- There are no bits behind the point.
    rw [lt_iff, parts_abs, is, parts_ofNat (by decide) (by decide)] at large
    obtain rfl : j = 0 := by
      by_contra fraction
      refine large (compare_finite_eq_lt.mpr (.inl ?_))
      rw [show (Nat.pow 2 52).log2 = 52 from Nat.log2_two_pow]
      omega
    obtain ⟨_, whole⟩ := parts_whole normal.least normal.most fits
    rw [value]
    refine eq_of_parts (is.trans ?_)
    rw [whole]
    simp only [Nat.pow_zero, Nat.div_one, Nat.mul_one]

/-- A double is whole where it is the number that it is converted to. -/
theorem sub_truncate_beq_zero_iff {x : Float} {k : Nat} (number : x.isNaN = false) (least : ¬ x < 1)
    (most : ¬ x > Float.ofNat k) (small : k < 2 ^ 53) :
    (x - truncate x == 0) = true ↔ x = Float.ofNat x.toUInt64.toNat := by
  obtain ⟨m, j, normal, is, fits, low, high⟩ := parts_between number least most small
  obtain ⟨_, whole⟩ := parts_whole normal.least normal.most fits
  rw [truncate_eq number least most small, toUInt64_of_parts is (lt_of_le_of_lt high small),
    sub_beq_zero_iff is whole (Nat.div_mul_le_self _ _) normal.most (by omega) (by omega)]
  constructor
  · intro same
    refine eq_of_parts (is.trans ?_)
    simp only [whole, ← same]
  · intro same
    have parts := is.symm.trans (same ▸ whole)
    simp only [finite.injEq] at parts
    exact parts.2.1

/-! ### Conversions -/

theorem isNaN_ofNat {k : Nat} (positive : 0 < k) (small : k < 2 ^ 53) : (Float.ofNat k).isNaN = false := by
  rw [isNaN_eq, parts_ofNat positive small]
  rfl

theorem not_ofNat_lt {a b : Nat} (positive : 0 < a) (less : a ≤ b) (small : b < 2 ^ 53) : ¬ Float.ofNat b < Float.ofNat a := by
  have bits : a.log2 ≤ b.log2 :=
    (Nat.le_log2 (by omega)).mpr ((Nat.log2_self_le positive.ne').trans less)
  have bound : b.log2 < 53 := (Nat.log2_lt (by omega)).mpr small
  rw [lt_iff, parts_ofNat positive (by omega), parts_ofNat (by omega) small, compare_finite_eq_lt]
  rintro (longer | ⟨same, greater⟩)
  · omega
  · have same : a.log2 = b.log2 := by omega
    rw [same] at greater
    exact absurd (Nat.lt_of_mul_lt_mul_right greater) (by omega)

theorem toUInt64_ofNat {k : Nat} (positive : 0 < k) (small : k < 2 ^ 53) : (Float.ofNat k).toUInt64.toNat = k := by
  have whole : k * 2 ^ (52 - k.log2) / 2 ^ (52 - k.log2) = k := Nat.mul_div_cancel k (Nat.two_pow_pos _)
  rw [toUInt64_of_parts (parts_ofNat positive small) (by omega), whole]

end Netlist.Double
