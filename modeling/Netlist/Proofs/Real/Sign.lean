import Netlist.Proofs.Real.Unit

/-!
Signs of doubles. The sign of a double is one of its bits, and packing and rounding leave it alone: signs come
out of products and quotients, and a double and its magnitude differ in the sign only.
-/
namespace Netlist.Double
open Float.Model Float.Model.UnpackedFloat

def withSign (s : Sign) : UnpackedFloat → UnpackedFloat
  | .notANumber => .notANumber
  | .infinity _ => .infinity s
  | .zero _ => .zero s
  | .finite _ m e positive => .finite s m e positive

theorem exists_sign (u : UnpackedFloat) : ∃ s, u = withSign s u := by
  rcases u with s | _ | s | ⟨s, m, e, positive⟩
  · exact ⟨s, rfl⟩
  · exact ⟨.positive, rfl⟩
  · exact ⟨s, rfl⟩
  · exact ⟨s, rfl⟩

theorem withSign_withSign (s t : Sign) (u : UnpackedFloat) : withSign s (withSign t u) = withSign s u := by
  cases u <;> rfl

theorem neg_withSign (s : Sign) (u : UnpackedFloat) : (withSign s u).neg = withSign (-s) u := by
  cases u <;> rfl

theorem abs_eq_withSign (u : UnpackedFloat) : u.abs = withSign .positive u := by
  cases u <;> rfl

/-! ### The bit of the sign -/

theorem unpack_packComponents (s : Sign) (e : BitVec Format.binary64.exponentBits)
    (m : BitVec Format.binary64.mantissaBitsWithoutImplicit) :
    UnpackedFloat.unpack Format.binary64 (packComponents Format.binary64 s e m) =
      withSign s (UnpackedFloat.unpack Format.binary64 (packComponents Format.binary64 .positive e m)) := by
  unfold UnpackedFloat.unpack
  simp only [unpackMantissa_packComponents, unpackExponent_packComponents, unpackSign_packComponents, Sign.ofBitVec_toBitVec]
  split
  · split <;> rfl
  · split
    · split <;> rfl
    · rfl

theorem exists_components {u : UnpackedFloat} (number : u.isNaN = false) :
    ∃ e m, ∀ s, UnpackedFloat.pack Format.binary64 (withSign s u) = packComponents Format.binary64 s e m := by
  rcases u with _ | _ | _ | ⟨_, m, e, positive⟩
  case notANumber => cases number
  case infinity => exact ⟨_, _, fun s => rfl⟩
  case zero => exact ⟨_, _, fun s => rfl⟩
  case finite =>
    simp only [withSign, UnpackedFloat.pack]
    split
    · exact ⟨_, _, fun s => rfl⟩
    · split
      · exact ⟨_, _, fun s => rfl⟩
      · exact ⟨_, _, fun s => rfl⟩

theorem unpack_pack_withSign (s : Sign) (u : UnpackedFloat) :
    (Float.Model.pack (withSign s u)).unpack = withSign s (Float.Model.pack u).unpack := by
  cases undefined : u.isNaN with
  | true =>
    have packed : (Float.Model.pack .notANumber).unpack = .notANumber := by rfl
    cases u with
    | notANumber => rw [withSign, packed, withSign]
    | infinity | zero | finite => cases undefined
  | false =>
    -- The exponent and the fraction are the same for both signs, the one of `u` itself included.
    obtain ⟨e, m, packed⟩ := exists_components undefined
    obtain ⟨t, own⟩ := exists_sign u
    have signed (s : Sign) : (Float.Model.pack (withSign s u)).unpack =
        withSign s (UnpackedFloat.unpack Format.binary64 (packComponents Format.binary64 .positive e m)) := by
      change UnpackedFloat.unpack Format.binary64 (UnpackedFloat.pack Format.binary64 (withSign s u)) = _
      rw [packed s, unpack_packComponents]
    conv => rhs; rw [own]
    rw [signed, signed, withSign_withSign]

theorem unpack_pack_neg (u : UnpackedFloat) : (Float.Model.pack u.neg).unpack = (Float.Model.pack u).unpack.neg := by
  obtain ⟨s, own⟩ := exists_sign u
  rw [own, neg_withSign, unpack_pack_withSign, unpack_pack_withSign, neg_withSign]

/-! ### Signs of doubles -/

theorem unpack_pack_parts (x : Float) : (Float.Model.pack (parts x)).unpack = parts x :=
  congrArg parts (ofModel_pack_parts x)

/-- Doubles that stand for the same are the same. -/
theorem eq_of_parts {x y : Float} (same : parts x = parts y) : x = y := by
  rw [← ofModel_pack_parts x, same, ofModel_pack_parts]

theorem parts_neg (x : Float) : parts (-x) = (parts x).neg := by
  change (Float.Model.pack (parts x).neg).unpack = _
  rw [unpack_pack_neg, unpack_pack_parts]

theorem parts_abs (x : Float) : parts x.abs = (parts x).abs := by
  change (Float.Model.pack (parts x).abs).unpack = _
  rw [abs_eq_withSign, unpack_pack_withSign, unpack_pack_parts]

theorem neg_neg (x : Float) : - -x = x := by
  apply eq_of_parts
  rw [parts_neg, parts_neg]
  obtain ⟨s, own⟩ := exists_sign (parts x)
  rw [own, neg_withSign, neg_withSign]
  cases s <;> rfl

theorem roundWithAccuracy_neg (s : Sign) (m : Nat) (e : Int) (a : Accuracy) :
    roundWithAccuracy Format.binary64 (-s) m e a = (roundWithAccuracy Format.binary64 s m e a).neg := by
  unfold roundWithAccuracy
  dsimp only
  split <;> rfl

theorem mul_neg_parts (u v : UnpackedFloat) :
    UnpackedFloat.mul Format.binary64 u.neg v = (UnpackedFloat.mul Format.binary64 u v).neg := by
  have signs (s t : Sign) : -s * t = -(s * t) := by cases s <;> cases t <;> rfl
  cases u with
  | notANumber => rfl
  | infinity s | zero s => cases v <;> simp only [UnpackedFloat.neg, UnpackedFloat.mul, signs]
  | finite s m e positive =>
    cases v with
    | notANumber => rfl
    | infinity t | zero t => simp only [UnpackedFloat.neg, UnpackedFloat.mul, signs]
    | finite t m' e' positive' =>
      simp only [UnpackedFloat.neg, UnpackedFloat.mul, signs]
      exact roundWithAccuracy_neg _ _ _ _

theorem div_neg_parts (u v : UnpackedFloat) :
    UnpackedFloat.div Format.binary64 u v.neg = (UnpackedFloat.div Format.binary64 u v).neg := by
  have signs (s t : Sign) : s / -t = -(s / t) := by cases s <;> cases t <;> rfl
  cases u with
  | notANumber => rfl
  | infinity s | zero s => cases v <;> simp only [UnpackedFloat.neg, UnpackedFloat.div, signs]
  | finite s m e positive =>
    cases v with
    | notANumber => rfl
    | infinity t | zero t => simp only [UnpackedFloat.neg, UnpackedFloat.div, signs]
    | finite t m' e' positive' =>
      simp only [UnpackedFloat.neg, UnpackedFloat.div, signs]
      exact roundWithAccuracy_neg _ _ _ _

theorem neg_mul (x y : Float) : -x * y = -(x * y) := by
  have product (x y : Float) :
      parts (x * y) = (Float.Model.pack (UnpackedFloat.mul Format.binary64 (parts x) (parts y))).unpack := rfl
  apply eq_of_parts
  rw [parts_neg, product, product, parts_neg, mul_neg_parts, unpack_pack_neg]

theorem div_neg (x y : Float) : x / -y = -(x / y) := by
  have quotient (x y : Float) :
      parts (x / y) = (Float.Model.pack (UnpackedFloat.div Format.binary64 (parts x) (parts y))).unpack := rfl
  apply eq_of_parts
  rw [parts_neg, quotient, quotient, parts_neg, div_neg_parts, unpack_pack_neg]

theorem parts_zero : parts 0 = .zero .positive := by rfl

theorem parts_of_neg {x : Float} (negative : x < 0) :
    parts x = .infinity .negative ∨ ∃ m e positive, parts x = .finite .negative m e positive := by
  rw [lt_iff, parts_zero] at negative
  rcases is : parts x with (_ | _) | _ | _ | ⟨_ | _, m, e, positive⟩
  case infinity.negative => exact .inl rfl
  case finite.negative => exact .inr ⟨m, e, positive, rfl⟩
  all_goals
    rw [is] at negative
    cases negative

theorem neg_abs {x : Float} (negative : x < 0) : -x.abs = x := by
  apply eq_of_parts
  rw [parts_neg, parts_abs]
  obtain is | ⟨m, e, positive, is⟩ := parts_of_neg negative
  · rw [is]
    rfl
  · rw [is]
    rfl

theorem abs_abs (x : Float) : x.abs.abs = x.abs := by
  apply eq_of_parts
  rw [parts_abs, parts_abs, abs_eq_withSign, abs_eq_withSign, withSign_withSign]

theorem not_pos_of_neg {x : Float} (negative : x < 0) : ¬ 0 < x := by
  rw [lt_iff, parts_zero]
  obtain is | ⟨m, e, positive, is⟩ := parts_of_neg negative <;> simp [is, UnpackedFloat.compare]

theorem pos_abs {x : Float} (negative : x < 0) : 0 < x.abs := by
  rw [lt_iff, parts_zero, parts_abs]
  obtain is | ⟨m, e, positive, is⟩ := parts_of_neg negative <;> rw [is] <;> rfl

theorem not_abs_neg (x : Float) : ¬ x.abs < 0 := by
  rw [lt_iff, parts_zero, parts_abs]
  cases parts x <;> simp [UnpackedFloat.abs, UnpackedFloat.compare]

/-! ### Equality as doubles compare -/

theorem beq_eq (x y : Float) : (x == y) = ((parts x).compare (parts y) == some .eq) := rfl

/-- Only zero is its own opposite. -/
theorem neg_beq_self (x : Float) : (-x == x) = (x == 0) := by
  rw [beq_eq, beq_eq, parts_neg, parts_zero]
  rcases parts x with (_ | _) | _ | _ | ⟨_ | _, _, _, _⟩ <;> rfl

theorem exists_finite {x : Float} (finite : x.isFinite = true) (nonzero : (x == 0) = false) :
    ∃ s m e positive, parts x = .finite s m e positive := by
  have finite : (parts x).isFinite = true := finite
  rw [beq_eq, parts_zero] at nonzero
  rcases is : parts x with _ | _ | _ | ⟨s, m, e, positive⟩
  case finite => exact ⟨s, m, e, positive, rfl⟩
  case zero =>
    rw [is] at nonzero
    cases nonzero
  all_goals
    rw [is] at finite
    cases finite

/-! ### Results that are no numbers -/

theorem parts_of_isNaN {x : Float} (undefined : x.isNaN = true) : parts x = .notANumber := by
  rw [isNaN_eq] at undefined
  generalize parts x = u at undefined ⊢
  cases u with
  | notANumber => rfl
  | infinity | zero | finite => cases undefined

theorem beq_of_isNaN {x : Float} (undefined : x.isNaN = true) (y : Float) : (x == y) = false := by
  rw [beq_eq, parts_of_isNaN undefined]
  rfl

theorem isNaN_notANumber : (Float.ofModel (Float.Model.pack .notANumber)).isNaN = true := by rfl

theorem isNaN_div {y : Float} (undefined : y.isNaN = true) (x : Float) : (x / y).isNaN = true := by
  have quotient : x / y = Float.ofModel (Float.Model.pack (UnpackedFloat.div Format.binary64 (parts x) (parts y))) := rfl
  have quotient' : UnpackedFloat.div Format.binary64 (parts x) .notANumber = .notANumber := by cases parts x <;> rfl
  rw [quotient, parts_of_isNaN undefined, quotient']
  exact isNaN_notANumber

/-- Negative numbers have no square root. -/
theorem isNaN_sqrt {x : Float} (negative : x < 0) : x.sqrt.isNaN = true := by
  have root : x.sqrt = Float.ofModel (Float.Model.pack (UnpackedFloat.sqrt Format.binary64 (parts x))) := rfl
  have undefined : UnpackedFloat.sqrt Format.binary64 (parts x) = .notANumber := by
    obtain is | ⟨m, e, positive, is⟩ := parts_of_neg negative <;> rw [is] <;> rfl
  rw [root, undefined]
  exact isNaN_notANumber

end Netlist.Double
