import Netlist.Proofs.Real.Comparison

/-!
Products of doubles with one and with minus one. A double is its parts packed again, and rounding changes
neither the parts nor their negation.
-/
namespace Netlist.Double
open Float.Model Float.Model.UnpackedFloat

private theorem packComponents_self (b : BitVec Format.binary64.numBits) :
    packComponents Format.binary64 (Sign.ofBitVec (unpackSign b)) (unpackExponent b) (unpackMantissa b) = b := by
  have sign (v : BitVec 1) : (Sign.ofBitVec v).toBitVec = v := by revert v; decide
  simp only [packComponents, sign, unpackSign, unpackExponent, unpackMantissa, BitVec.extractLsb]
  ext i bound
  grind

/-- The bits of a double with its parts packed again. A NaN has only one form. -/
theorem pack_unpack {b : BitVec Format.binary64.numBits} (valid : Format.binary64.Valid b) :
    UnpackedFloat.pack Format.binary64 (UnpackedFloat.unpack Format.binary64 b) = b := by
  have self := packComponents_self b
  have exponent : (unpackExponent b).toNat < 2 ^ 11 := (unpackExponent b).isLt
  have mantissa : (unpackMantissa b).toNat < 2 ^ 52 := (unpackMantissa b).isLt
  unfold UnpackedFloat.unpack
  dsimp only
  split
  · next all =>
    split
    · next zero =>
      rw [all, zero] at self
      exact self
    · next fraction => exact (valid.eq_packedNaN all fraction).symm
  · next notAll =>
    split
    · next subnormal =>
      split
      · next zero =>
        rw [subnormal, zero] at self
        exact self
      · next fraction =>
        -- A subnormal number: its mantissa has too few bits for a normal one.
        have positive : (unpackMantissa b).toNat ≠ 0 := fun zero => fraction (BitVec.eq_of_toNat_eq zero)
        have bits : (unpackMantissa b).toNat.log2 < 52 := (Nat.log2_lt positive).mpr mantissa
        have field : (unpackExponent b).toNat = 0 := congrArg BitVec.toNat subnormal
        unfold UnpackedFloat.pack
        dsimp only
        rw [if_neg (by rw [field]; decide), if_neg (by simp only [Format.mantissaBits]; omega), BitVec.ofNat_toNat,
          BitVec.setWidth_eq]
        rw [subnormal] at self
        exact self
    · next notZero =>
      have full : (unpackExponent b).toNat ≠ 2 ^ 11 - 1 := fun same => notAll (BitVec.eq_of_toNat_eq same)
      have bits : (2 ^ 52 + (unpackMantissa b).toNat).log2 = 52 := by
        rw [Nat.log2_eq_iff (by omega)]
        omega
      have biased : ((unpackExponent b).toNat - (Format.binary64.exponentBias + Format.binary64.mantissaBitsWithoutImplicit : Int) +
          Format.binary64.exponentBias + Format.binary64.mantissaBitsWithoutImplicit).toNat = (unpackExponent b).toNat := by
        omega
      have own : BitVec.ofNat 52 (2 ^ 52 + (unpackMantissa b).toNat) = unpackMantissa b := by
        apply BitVec.eq_of_toNat_eq
        rw [BitVec.toNat_ofNat, Nat.add_mod_left, Nat.mod_eq_of_lt mantissa]
      unfold UnpackedFloat.pack
      dsimp only
      rw [biased, toNat_one_append, if_neg (by norm_num; omega), if_pos (by rw [bits]; rfl), own, BitVec.ofNat_toNat, BitVec.setWidth_eq]
      exact self

/-- A double is its parts. -/
theorem ofModel_pack_parts (x : Float) : Float.ofModel (Float.Model.pack (parts x)) = x := by
  obtain ⟨⟨bits, valid⟩⟩ := x
  have same : UnpackedFloat.pack Format.binary64 (UnpackedFloat.unpack Format.binary64 bits.toBitVec) = bits.toBitVec :=
    pack_unpack valid
  simp only [parts, Float.Model.pack, Float.Model.unpack, same]

theorem mul_eq (x y : Float) :
    x * y = Float.ofModel (Float.Model.pack (UnpackedFloat.mul Format.binary64 (parts x) (parts y))) := rfl

theorem neg_eq (x : Float) : -x = Float.ofModel (Float.Model.pack (parts x).neg) := rfl

theorem parts_neg_one : parts (-1) = .finite .negative (2 ^ 52) (-52) (by decide) := by
  have normal : Normal (2 ^ 52) (-52) := ⟨by decide, by decide, by decide, by decide⟩
  rw [neg_eq, parts_one]
  exact unpack_pack normal .negative

theorem mul_unit (s : Sign) (x : Float) :
    UnpackedFloat.mul Format.binary64 (.finite s (2 ^ 52) (-52) (by decide)) (parts x) =
      match s with
      | .positive => parts x
      | .negative => (parts x).neg := by
  rcases is : parts x with t | _ | t | ⟨t, m, e, positive⟩
  case finite =>
    have fits := representable_parts is
    have rounded (s : Sign) := roundWithAccuracy_exact fits s 52
    have product : 2 ^ 52 * m = m * 2 ^ 52 := Nat.mul_comm _ _
    have sum : (-52 : Int) + e = e - (52 : Nat) := by omega
    unfold UnpackedFloat.mul
    dsimp only
    rw [product, sum, rounded]
    rcases s with _ | _ <;> rcases t with _ | _ <;> rfl
  all_goals
    rcases s with _ | _ <;> first | rfl | (rcases t with _ | _ <;> rfl)

theorem one_mul (x : Float) : 1 * x = x := by
  rw [mul_eq, parts_one, mul_unit]
  exact ofModel_pack_parts x

theorem neg_one_mul (x : Float) : -1 * x = -x := by
  rw [mul_eq, parts_neg_one, mul_unit, neg_eq]

end Netlist.Double
