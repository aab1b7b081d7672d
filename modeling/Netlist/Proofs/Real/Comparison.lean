import Mathlib
import Netlist.Real.Order

/-!
Comparisons of doubles, by the mantissas and exponents that they stand for. A comparison fails on
both sides only if one of the two is NaN, and a double between one and a whole number below `2^53`
has a whole part between them.
-/
namespace Netlist.Double
open Float.Model Float.Model.UnpackedFloat

def parts (x : Float) : UnpackedFloat := x.toModel.unpack

theorem isNaN_eq (x : Float) : x.isNaN = (parts x).isNaN := rfl

theorem lt_iff {a b : Float} : a < b ↔ (parts a).compare (parts b) = some .lt := by
  change decide (a.toModel < b.toModel) = true ↔ _
  rw [decide_eq_true_iff]
  change (parts a).lt (parts b) = true ↔ _
  simp [UnpackedFloat.lt]

theorem le_iff {a b : Float} : a ≤ b ↔ ((parts a).compare (parts b)).any (·.isLE) = true := by
  change decide (a.toModel ≤ b.toModel) = true ↔ _
  rw [decide_eq_true_iff]
  rfl

theorem le_of_lt {a b : Float} (less : a < b) : a ≤ b := by
  rw [le_iff, lt_iff.mp less]
  rfl

theorem compare_self {u : UnpackedFloat} (number : u.isNaN = false) : u.compare u = some .eq := by
  rcases u with (_ | _) | _ | _ | ⟨_ | _, m, e, _⟩
  case notANumber => cases number
  case infinity.negative | infinity.positive | zero => rfl
  all_goals simp [UnpackedFloat.compare]

theorem le_self {x : Float} (number : x.isNaN = false) : x ≤ x := by
  rw [le_iff, compare_self (isNaN_eq x ▸ number)]
  rfl

theorem not_le_of_isNaN {a b : Float} (undefined : a.isNaN = true) : ¬ a ≤ b := by
  rw [isNaN_eq] at undefined
  rw [le_iff]
  cases eq : parts a with
  | notANumber => simp [UnpackedFloat.compare]
  | infinity | zero | finite =>
    rw [eq] at undefined
    cases undefined

/-- The smaller of two doubles is at most the greater one, unless both are NaN. -/
theorem minimum_le_maximum_iff {a b : Float} : minimum a b ≤ maximum a b ↔ ¬ (a.isNaN = true ∧ b.isNaN = true) := by
  unfold minimum maximum
  cases first : a.isNaN with
  | true =>
    simp only [if_true, true_and]
    cases second : b.isNaN with
    | true => simpa using not_le_of_isNaN second
    | false => simpa using le_self second
  | false =>
    simp only [Bool.false_eq_true, if_false, false_and, not_false_eq_true, iff_true]
    by_cases below : b < a
    · rw [if_pos below]
      split
      · next above =>
        -- Doubles that are less than others are numbers.
        refine le_self ?_
        by_contra undefined
        exact not_le_of_isNaN (by simpa using undefined) (le_of_lt below)
      · exact le_of_lt below
    · rw [if_neg below]
      split
      · next above => exact le_of_lt above
      · exact le_self first

/-! ### Whole numbers -/

/-- The mantissa and the exponent of a positive double. The mantissa has all its bits, unless the double
is subnormal. -/
structure Representable (m : Nat) (e : Int) : Prop where
  pos : 0 < m
  most : m < 2 ^ 53
  exponent : -1074 ≤ e
  full : e = -1074 ∨ 2 ^ 52 ≤ m

structure Normal (m : Nat) (e : Int) : Prop where
  least : 2 ^ 52 ≤ m
  most : m < 2 ^ 53
  exponent : -1074 ≤ e
  top : e ≤ 971

theorem Normal.pos {m : Nat} {e : Int} (normal : Normal m e) : 0 < m :=
  Nat.lt_of_lt_of_le (by decide) normal.least

theorem Normal.representable {m : Nat} {e : Int} (normal : Normal m e) : Representable m e :=
  ⟨normal.pos, normal.most, normal.exponent, .inr normal.least⟩

theorem Normal.log2 {m : Nat} {e : Int} (normal : Normal m e) (j : Nat) : (m * 2 ^ j).log2 = 52 + j := by
  rw [Nat.log2_eq_iff (Nat.mul_pos normal.pos (Nat.two_pow_pos j)).ne', Nat.pow_add, show 52 + j + 1 = 53 + j by omega,
    Nat.pow_add]
  exact ⟨Nat.mul_le_mul_right _ normal.least, Nat.mul_lt_mul_of_pos_right normal.most (Nat.two_pow_pos j)⟩

theorem shiftRight_exact (m j : Nat) :
    (ExtendedMantissa.mk (m * 2 ^ j) false false) >>> j = ExtendedMantissa.mk m false false := by
  change j.repeat ExtendedMantissa.shiftRightOne _ = _
  induction j generalizing m with
  | zero => simp [Nat.repeat]
  | succ j ih =>
    rw [Nat.repeat, show m * 2 ^ (j + 1) = m * 2 * 2 ^ j by rw [Nat.pow_succ]; ring, ih]
    simp [ExtendedMantissa.shiftRightOne]

theorem Representable.log2_shifted {m : Nat} {e : Int} (fits : Representable m e) (j : Nat) :
    (m * 2 ^ j).log2 = m.log2 + j := by
  rw [Nat.log2_eq_iff (Nat.mul_pos fits.pos (Nat.two_pow_pos j)).ne', Nat.pow_add, show m.log2 + j + 1 = m.log2 + 1 + j by omega,
    Nat.pow_add]
  exact ⟨Nat.mul_le_mul_right _ (Nat.log2_self_le fits.pos.ne'),
    Nat.mul_lt_mul_of_pos_right Nat.lt_log2_self (Nat.two_pow_pos j)⟩

theorem shiftToTargetExponent_exact {m : Nat} {e : Int} (fits : Representable m e) (j : Nat) :
    shiftToTargetExponent Format.binary64 (m * 2 ^ j) (e - j) .exact = (ExtendedMantissa.mk m false false, e) := by
  have low := fits.exponent
  have bits : m.log2 < 53 := (Nat.log2_lt fits.pos.ne').mpr fits.most
  have target : Format.binary64.targetExponent (totalExponent (m * 2 ^ j) (e - j)) = e := by
    have full : e = -1074 ∨ m.log2 = 52 := by
      refine fits.full.imp_right fun least => ?_
      have := (Nat.le_log2 fits.pos.ne').mpr least
      omega
    simp only [Format.targetExponent, totalExponent, fits.log2_shifted, Format.mantissaBits, Format.minExponent]
    norm_num
    omega
  unfold shiftToTargetExponent
  rw [target]
  unfold shiftToExponent
  have amount : (e - (e - j)).toNat = j := by omega
  simp only [amount]
  rw [show ExtendedMantissa.ofMantissaAndAccuracy (m * 2 ^ j) .exact = ⟨m * 2 ^ j, false, false⟩ from rfl, shiftRight_exact]
  simp

/-- A number that has a mantissa of the right size is not changed by rounding. -/
theorem roundWithAccuracy_exact {m : Nat} {e : Int} (fits : Representable m e) (s : Sign) (j : Nat) :
    roundWithAccuracy Format.binary64 s (m * 2 ^ j) (e - j) .exact = .finite s m e fits.pos := by
  have again : shiftToTargetExponent Format.binary64 m e .exact = (ExtendedMantissa.mk m false false, e) := by
    simpa using shiftToTargetExponent_exact fits 0
  unfold roundWithAccuracy
  rw [shiftToTargetExponent_exact fits j]
  dsimp only
  rw [show (ExtendedMantissa.mk m false false).roundedMantissa = m from rfl, again]
  simp [fits.pos.ne']

theorem toNat_one_append (m : BitVec 52) : (1#1 ++ m).toNat = 2 ^ 52 + m.toNat := by
  rw [BitVec.toNat_append, ← Nat.shiftLeft_add_eq_or_of_lt (BitVec.isLt _)]
  norm_num [Nat.shiftLeft_eq]

theorem unpack_pack {m : Nat} {e : Int} (normal : Normal m e) (s : Sign) :
    (Float.Model.pack (.finite s m e normal.pos)).unpack = .finite s m e normal.pos := by
  have low := normal.exponent
  have high := normal.top
  obtain ⟨field, is⟩ : ∃ field : Nat, (field : Int) = e + 1075 := ⟨(e + 1075).toNat, by omega⟩
  have biased : (e + Format.binary64.exponentBias + Format.binary64.mantissaBitsWithoutImplicit).toNat = field := by
    simp only [Format.exponentBias]
    norm_num
    omega
  have fits : (BitVec.ofNat 11 field).toNat = field := by
    rw [BitVec.toNat_ofNat]
    omega
  have not_all : BitVec.ofNat 11 field ≠ -1#11 := fun same => by
    have := congrArg BitVec.toNat same
    rw [fits] at this
    norm_num at this
    omega
  have not_zero : BitVec.ofNat 11 field ≠ 0#11 := fun same => by
    have := congrArg BitVec.toNat same
    rw [fits] at this
    norm_num at this
    omega
  have mantissa : (1#1 ++ BitVec.ofNat 52 m).toNat = m := by
    have least := normal.least
    have most := normal.most
    rw [toNat_one_append, BitVec.toNat_ofNat]
    omega
  have log : m.log2 + 1 = Format.binary64.mantissaBits := by
    have := normal.log2 0
    simp only [Nat.pow_zero, Nat.mul_one, Nat.add_zero] at this
    rw [this]
    rfl
  have small : ¬ 2 ^ Format.binary64.exponentBits ≤ field + 1 := by
    norm_num
    omega
  unfold Float.Model.unpack Float.Model.pack
  dsimp only
  unfold UnpackedFloat.pack
  dsimp only
  rw [biased, if_neg small, if_pos log]
  unfold UnpackedFloat.unpack
  simp only [unpackMantissa_packComponents, unpackExponent_packComponents,
    unpackSign_packComponents, Sign.ofBitVec_toBitVec, if_neg not_all, if_neg not_zero, fits, mantissa]
  congr 1
  simp only [Format.exponentBias]
  norm_num
  omega

/-- A positive number below `2^53` with as many bits as a mantissa has. -/
theorem normal_of_lt {k : Nat} (positive : 0 < k) (small : k < 2 ^ 53) :
    Normal (k * 2 ^ (52 - k.log2)) (-(52 - k.log2 : Nat) : Int) := by
  have bound : k.log2 < 53 := (Nat.log2_lt positive.ne').mpr small
  have low := Nat.mul_le_mul_right (2 ^ (52 - k.log2)) (Nat.log2_self_le positive.ne')
  have high := Nat.mul_lt_mul_of_pos_right (Nat.lt_log2_self (n := k)) (Nat.two_pow_pos (52 - k.log2))
  rw [← Nat.pow_add] at low high
  rw [show k.log2 + (52 - k.log2) = 52 by omega] at low
  rw [show k.log2 + 1 + (52 - k.log2) = 53 by omega] at high
  exact ⟨low, high, by omega, by omega⟩

theorem round_exact {k : Nat} (positive : 0 < k) (small : k < 2 ^ 53) {e : Int} (low : -1022 ≤ e) (s : Sign) :
    UnpackedFloat.round Format.binary64 s k e =
      .finite s (k * 2 ^ (52 - k.log2)) (e - (52 - k.log2 : Nat)) (normal_of_lt positive small).pos := by
  have bound : k.log2 < 53 := (Nat.log2_lt positive.ne').mpr small
  have target : Format.binary64.targetExponent (totalExponent k e) = e - (52 - k.log2 : Nat) := by
    simp only [Format.targetExponent, totalExponent, Format.mantissaBits, Format.minExponent]
    norm_num
    omega
  have normal := normal_of_lt positive small
  have fits : Representable (k * 2 ^ (52 - k.log2)) (e - (52 - k.log2 : Nat)) :=
    ⟨normal.pos, normal.most, by omega, .inr normal.least⟩
  unfold UnpackedFloat.round decreaseExponent
  rw [target]
  dsimp only
  rw [show (e - (e - ((52 - k.log2 : Nat) : Int))).toNat = 52 - k.log2 by omega, Nat.shiftLeft_eq]
  simpa using roundWithAccuracy_exact fits s 0

theorem normalize_pos {k : Nat} (positive : 0 < k) (e : Int) (s : Sign) :
    UnpackedFloat.normalize Format.binary64 k e s = UnpackedFloat.round Format.binary64 .positive k e := by
  have above : compare (k : Int) 0 = .gt := Int.compare_eq_gt.mpr (by omega)
  unfold UnpackedFloat.normalize
  rw [above]
  rfl

theorem round_nat {k : Nat} (positive : 0 < k) (small : k < 2 ^ 53) :
    UnpackedFloat.ofNat Format.binary64 k =
      .finite .positive (k * 2 ^ (52 - k.log2)) (-(52 - k.log2 : Nat) : Int) (normal_of_lt positive small).pos := by
  unfold UnpackedFloat.ofNat UnpackedFloat.ofInt
  rw [normalize_pos positive]
  simpa using round_exact positive small (e := 0) (by decide) .positive

private theorem parts_ofBits_one : parts (Float.ofBits 0x3FF0000000000000) = .finite .positive (2 ^ 52) (-52) (by decide) := by
  rfl

theorem parts_toFloat {n : UInt64} (positive : 0 < n.toNat) (small : n.toNat < 2 ^ 53) :
    parts n.toFloat = .finite .positive (n.toNat * 2 ^ (52 - n.toNat.log2)) (-(52 - n.toNat.log2 : Nat) : Int)
      (normal_of_lt positive small).pos := by
  change (Float.Model.pack (UnpackedFloat.ofNat Format.binary64 n.toNat)).unpack = _
  rw [round_nat positive small, unpack_pack (normal_of_lt positive small)]

theorem parts_ofNat {k : Nat} (positive : 0 < k) (small : k < 2 ^ 53) :
    parts (Float.ofNat k) =
      .finite .positive (k * 2 ^ (52 - k.log2)) (-(52 - k.log2 : Nat) : Int) (normal_of_lt positive small).pos := by
  have normal := normal_of_lt positive small
  have own : k.toUInt64.toNat = k := UInt64.toNat_ofNat_of_lt' (by norm_num [UInt64.size] at small ⊢; omega)
  have converted := parts_toFloat (n := k.toUInt64) (by omega) (by omega)
  simp only [own] at converted
  have product : Float.ofNat k = k.toUInt64.toFloat * Float.ofBits 0x3FF0000000000000 := by
    unfold Float.ofNat
    change Float.ofScientific k false 0 = _
    unfold Float.ofScientific
    rw [dif_pos ⟨small, by decide⟩]
    rfl
  rw [product]
  change (Float.Model.pack (UnpackedFloat.mul Format.binary64 (parts _) (parts _))).unpack = _
  rw [converted, parts_ofBits_one]
  change (Float.Model.pack (roundWithAccuracy Format.binary64 .positive (_ * 2 ^ 52) (_ - (52 : Nat)) .exact)).unpack = _
  rw [roundWithAccuracy_exact normal.representable, unpack_pack normal]

theorem representable_parts {x : Float} {s : Sign} {m : Nat} {e : Int} {positive : 0 < m}
    (is : parts x = .finite s m e positive) : Representable m e := by
  unfold parts Float.Model.unpack UnpackedFloat.unpack at is
  dsimp only at is
  split at is
  · split at is <;> cases is
  · split at is
    · next zero =>
      split at is
      · cases is
      · simp only [finite.injEq] at is
        obtain ⟨-, rfl, rfl⟩ := is
        rw [zero]
        exact ⟨positive, (BitVec.isLt _).trans (by norm_num), Int.le_refl _, .inl rfl⟩
    · next field =>
      simp only [finite.injEq] at is
      obtain ⟨-, rfl, rfl⟩ := is
      have normal : (@unpackExponent Format.binary64 x.toModel.toBits.toBitVec).toNat ≠ 0 :=
        fun zero => field (BitVec.eq_of_toNat_eq zero)
      refine ⟨positive, BitVec.isLt _, ?_, .inr ?_⟩
      · simp only [Format.exponentBias]
        norm_num
        omega
      · rw [toNat_one_append]
        exact Nat.le_add_right _ _

theorem shiftRight_mantissa (em : ExtendedMantissa) (j : Nat) : (em >>> j).mantissa = em.mantissa / 2 ^ j := by
  change (j.repeat ExtendedMantissa.shiftRightOne em).mantissa = _
  induction j with
  | zero => simp [Nat.repeat]
  | succ j ih =>
    rw [Nat.repeat, Nat.pow_succ, ← Nat.div_div_eq_div_mul, ← ih]
    rfl

theorem toInt_finite (m : Nat) (e : Int) (positive : 0 < m) (low high : Int) :
    (UnpackedFloat.finite .positive m e positive).toInt low high = (m * 2 ^ e.toNat / 2 ^ (-e).toNat : Nat) := by
  have amount : (0 - (e - ((e - 0).toNat : Int))).toNat = (-e).toNat := by omega
  unfold UnpackedFloat.toInt roundToInt decreaseExponent shiftToExponent
  dsimp only
  rw [shiftRight_mantissa, Nat.shiftLeft_eq, amount, Int.sub_zero]
  rfl

theorem parts_one : parts 1 = .finite .positive (2 ^ 52) (-52) (by decide) :=
  parts_ofNat (k := 1) (by decide) (by decide)

theorem compare_finite_eq_lt {m m' : Nat} {e e' : Int} {positive : 0 < m} {positive' : 0 < m'} :
    (UnpackedFloat.finite .positive m e positive).compare (.finite .positive m' e' positive') = some .lt ↔
      e < e' ∨ e = e' ∧ m < m' := by
  simp only [UnpackedFloat.compare, Option.some.injEq, Ordering.then_eq_lt, compare_lt_iff_lt, compare_eq_iff_eq]

/-- A positive number lies on one side of the others, so one that is not less than one is finite or infinite and positive. -/
theorem parts_of_not_lt_one {x : Float} (number : x.isNaN = false) (least : ¬ x < 1) :
    parts x = .infinity .positive ∨
      ∃ m e positive, parts x = .finite .positive m e positive ∧ 2 ^ 52 ≤ m ∧ -52 ≤ e := by
  rw [lt_iff, parts_one] at least
  rw [isNaN_eq] at number
  rcases is : parts x with (_ | _) | _ | _ | ⟨_ | _, m, e, positive⟩
  case notANumber =>
    rw [is] at number
    cases number
  case infinity.positive => exact .inl rfl
  case finite.positive =>
    rw [is, compare_finite_eq_lt] at least
    rcases (representable_parts is).full with subnormal | normal
    · omega
    · exact .inr ⟨m, e, positive, rfl, normal, by omega⟩
  all_goals
    rw [is] at least
    exact absurd rfl least

private theorem whole_bounds {m j k : Nat} (normal : 2 ^ 52 ≤ m) (bits : m < 2 ^ 53) (fits : j ≤ 52) (positive : 0 < k)
    (small : k < 2 ^ 53) (shifted : 52 - k.log2 < j ∨ 52 - k.log2 = j ∧ m ≤ k * 2 ^ (52 - k.log2)) :
    1 ≤ m / 2 ^ j ∧ m / 2 ^ j ≤ k := by
  refine ⟨(Nat.one_le_div_iff (Nat.two_pow_pos j)).mpr ((Nat.pow_le_pow_right (by decide) fits).trans normal), ?_⟩
  refine Nat.div_le_of_le_mul ?_
  rcases shifted with less | ⟨rfl, bound⟩
  · -- One more bit is shifted out than there are in `k`.
    have least := (normal_of_lt positive small).least
    calc
      m ≤ k * 2 ^ (52 - k.log2) * 2 := by omega
      _ = 2 ^ (52 - k.log2 + 1) * k := by rw [Nat.pow_succ]; ring
      _ ≤ 2 ^ j * k := Nat.mul_le_mul_right _ (Nat.pow_le_pow_right (by decide) less)
  · rwa [Nat.mul_comm]

/-- A double between one and a whole number has a whole part between them. -/
theorem parts_between {x : Float} {k : Nat} (number : x.isNaN = false) (least : ¬ x < 1) (most : ¬ x > Float.ofNat k)
    (small : k < 2 ^ 53) :
    ∃ m j, ∃ normal : Normal m (-(j : Nat) : Int), parts x = .finite .positive m (-j) normal.pos ∧ j ≤ 52 ∧
      1 ≤ m / 2 ^ j ∧ m / 2 ^ j ≤ k := by
  have most : ¬ (parts (Float.ofNat k)).compare (parts x) = some .lt := fun less => most (lt_iff.mpr less)
  rcases parts_of_not_lt_one number least with is | ⟨m, e, _, is, normal, floor⟩
  · rw [is] at most
    rcases Nat.eq_zero_or_pos k with rfl | positive
    · exact absurd rfl most
    · rw [parts_ofNat positive small] at most
      exact absurd rfl most
  · rw [is] at most
    rcases Nat.eq_zero_or_pos k with rfl | positive
    · exact absurd rfl most
    · rw [parts_ofNat positive small, compare_finite_eq_lt] at most
      obtain ⟨j, rfl⟩ : ∃ j : Nat, e = -j := ⟨(-e).toNat, by omega⟩
      exact ⟨m, j, ⟨normal, (representable_parts is).most, by omega, by omega⟩, is, by omega,
        whole_bounds normal (representable_parts is).most (by omega) positive small (by omega)⟩

theorem toUInt64_of_parts {x : Float} {m j : Nat} {positive : 0 < m} (is : parts x = .finite .positive m (-j) positive)
    (small : m / 2 ^ j < 2 ^ 53) : x.toUInt64.toNat = m / 2 ^ j := by
  have whole : (parts x).toInt 0 (UInt64.size - 1) = (m / 2 ^ j : Nat) := by
    rw [is, toInt_finite, show (-(j : Int)).toNat = 0 by omega, show (- -(j : Int)).toNat = j by omega, Nat.pow_zero, Nat.mul_one]
  have size : m / 2 ^ j < UInt64.size := small.trans (by decide)
  change (UInt64.ofNatClamp ((parts x).toInt 0 (UInt64.size - 1)).toNat).toNat = _
  rw [whole, Int.toNat_natCast, UInt64.ofNatClamp_eq_ofNat _ size]
  exact UInt64.toNat_ofNat_of_lt' size

theorem toUInt64_bounds {x : Float} {k : Nat} (number : x.isNaN = false) (least : ¬ x < 1) (most : ¬ x > Float.ofNat k)
    (small : k < 2 ^ 53) : 1 ≤ x.toUInt64.toNat ∧ x.toUInt64.toNat ≤ k := by
  obtain ⟨m, j, normal, is, -, low, high⟩ := parts_between number least most small
  rw [toUInt64_of_parts is (lt_of_le_of_lt high small)]
  exact ⟨low, high⟩

/-- The conversion to a whole number is clamped at the greatest one, so what is not less than one stays positive. -/
theorem toUInt64_pos {x : Float} (number : x.isNaN = false) (least : ¬ x < 1) : 0 < x.toUInt64.toNat := by
  have clamped {n : Nat} (positive : 0 < n) : 0 < (UInt64.ofNatClamp n).toNat := by
    unfold UInt64.ofNatClamp
    split
    · exact positive
    · decide
  change 0 < (UInt64.ofNatClamp ((parts x).toInt 0 (UInt64.size - 1)).toNat).toNat
  rcases parts_of_not_lt_one number least with is | ⟨m, e, _, is, normal, floor⟩
  · rw [is]
    exact clamped (by decide)
  · rw [is, toInt_finite, Int.toNat_natCast]
    refine clamped (Nat.div_pos ?_ (Nat.two_pow_pos _))
    calc
      2 ^ (-e).toNat ≤ 2 ^ 52 := Nat.pow_le_pow_right (by decide) (by omega)
      _ ≤ m := normal
      _ ≤ m * 2 ^ e.toNat := Nat.le_mul_of_pos_right m (Nat.two_pow_pos _)

end Netlist.Double
