import Netlist.Decimal.Notation
import Netlist.Number.Literal
import Netlist.Proofs.Expression.Boundary
import Netlist.Proofs.Real.Sign

/-!
Doubles written out in full. The text of a double is that of its magnitude, with a minus sign in front if it is
negative; and the text of a magnitude is digits with an optional fraction, which reads as a literal where neither a
fraction nor an exponent nor a letter can follow.
-/
namespace Netlist

/-! ### Doubles by their bits and by their parts -/

open Float.Model Float.Model.UnpackedFloat in
def Binary.ofParts : UnpackedFloat → Binary
  | .notANumber => .notANumber
  | .infinity s => .infinite (s == .negative)
  | .zero s => .finite (s == .negative) 0 (-1074)
  | .finite s m e _ => .finite (s == .negative) m e

open Float.Model Float.Model.UnpackedFloat in
theorem Binary.ofFloat_eq (x : Float) : Binary.ofFloat x = Binary.ofParts (Double.parts x) := by
  let b : BitVec Format.binary64.numBits := x.toModel.toBits.toBitVec
  have bound : x.toBits.toNat < 2 ^ 64 := x.toBits.toNat_lt
  have fraction : (unpackMantissa b).toNat = x.toBits.toNat % Nat.pow 2 52 := by
    change (BitVec.extractLsb 51 0 b).toNat = _
    rw [BitVec.extractLsb_toNat]
    rfl
  have field : (unpackExponent b).toNat = x.toBits.toNat / Nat.pow 2 52 % 2048 := by
    change (BitVec.extractLsb 62 52 b).toNat = _
    rw [BitVec.extractLsb_toNat, Nat.shiftRight_eq_div_pow]
    rfl
  have sign : (Sign.ofBitVec (unpackSign b) == .negative) = decide (x.toBits.toNat / Nat.pow 2 63 = 1) := by
    have bit : (unpackSign b).toNat = x.toBits.toNat / Nat.pow 2 63 := by
      change (BitVec.extractLsb 63 63 b).toNat = _
      rw [BitVec.extractLsb_toNat, Nat.shiftRight_eq_div_pow]
      exact Nat.mod_eq_of_lt (Nat.div_lt_of_lt_mul bound)
    rw [← bit]
    generalize unpackSign b = s
    revert s
    decide
  have toNat_iff {n : Nat} (v w : BitVec n) : v.toNat = w.toNat ↔ v = w :=
    ⟨BitVec.eq_of_toNat_eq, congrArg BitVec.toNat⟩
  have all : (unpackExponent b).toNat = 2047 ↔ unpackExponent b = -1#11 := toNat_iff _ (-1#11)
  have subnormal : (unpackExponent b).toNat = 0 ↔ unpackExponent b = 0#11 := toNat_iff _ 0#11
  have whole : (unpackMantissa b).toNat = 0 ↔ unpackMantissa b = 0#52 := toNat_iff _ 0#52
  change _ = Binary.ofParts (UnpackedFloat.unpack Format.binary64 b)
  unfold Binary.ofFloat Binary.ofBits UnpackedFloat.unpack
  dsimp only
  rw [← fraction, ← field, ← sign]
  simp only [all, subnormal, whole]
  split
  · split <;> rfl
  · split
    · next subnormal =>
      split
      · next zero =>
        rw [zero]
        rfl
      · rw [subnormal]
        rfl
    · change _ = Binary.finite _ (1#1 ++ unpackMantissa b).toNat _
      rw [Double.toNat_one_append]
      rfl

/-! ### Literals without exponents and suffixes -/

section Apart
variable {p : Char → Bool} {t tail : Text}

theorem Apart.takeWhile_all (apart : Apart p tail) (all : ∀ c ∈ t, p c = true) : (t ++ tail).takeWhile p = t := by
  rw [apart.takeWhile, List.takeWhile_eq_self_iff.mpr all]

theorem Apart.dropWhile_all (apart : Apart p tail) (all : ∀ c ∈ t, p c = true) : (t ++ tail).dropWhile p = tail := by
  rw [apart.dropWhile, List.dropWhile_eq_nil_iff.mpr all, List.nil_append]

end Apart

namespace Number

/-- Whether a text starts with a blank or with an asterisk, if with anything: it does not continue digits in front. -/
def Halts (rest : Text) : Prop := ∀ c, rest.head? = some c → c = '*' ∨ c = ' '

variable {rest : Text}

theorem Halts.apart (halts : Halts rest) {p : Char → Bool} (star : p '*' = false) (blank : p ' ' = false) : Apart p rest := by
  intro c first
  rcases halts c first with rfl | rfl
  · exact star
  · exact blank

theorem Halts.fraction (halts : Halts rest) (comma : Bool) : fraction comma rest = none := by
  cases rest with
  | nil => rfl
  | cons c rest => rcases halts c rfl with rfl | rfl <;> rfl

theorem Halts.exponent (halts : Halts rest) : exponent rest = none := by
  cases rest with
  | nil => rfl
  | cons c rest => rcases halts c rfl with rfl | rfl <;> rfl

theorem startsWithSuffix_eq_false {name : Text} {c : Char} (other : name.head?.any (· != suffixLetter c) = true) (t : Text) :
    startsWithSuffix name (c :: t) = false := by
  cases name with
  | nil => cases other
  | cons n name =>
    have differ : suffixLetter c ≠ n := fun same => absurd other (by simp [same])
    simp [startsWithSuffix, differ]

theorem Halts.suffix (halts : Halts rest) : suffix rest = .absent := by
  have unsuffixed : (suffixes.find? fun entry => startsWithSuffix entry.1 rest) = none := by
    rw [List.find?_eq_none]
    intro entry member
    cases rest with
    | nil =>
      have unmarked : suffixes.all (fun entry => !startsWithSuffix entry.1 []) = true := by decide
      simpa using List.all_eq_true.mp unmarked entry member
    | cons c rest =>
      have other : suffixes.all (fun entry => entry.1.head?.any (· != suffixLetter c)) = true := by
        rcases halts c rfl with rfl | rfl <;> decide
      exact Bool.eq_false_iff.mp (startsWithSuffix_eq_false (List.all_eq_true.mp other entry member) rest)
  unfold Number.suffix
  dsimp only
  rw [unsuffixed]

end Number

namespace Decimal

structure Plain (whole fraction : Text) : Prop where
  nonempty : whole ≠ []
  whole : ∀ c ∈ whole, c.isDigit = true
  fraction : ∀ c ∈ fraction, c.isDigit = true

def pointed (fraction : Text) : Text := if fraction.isEmpty then [] else '.' :: fraction

variable {whole fraction rest : Text}

theorem apart_pointed (digits : Apart Char.isDigit rest) (fraction : Text) : Apart Char.isDigit (pointed fraction ++ rest) := by
  cases fraction with
  | nil => exact digits
  | cons c fraction =>
    intro d first
    cases first
    rfl

/-- Where a text halts, digits in front of it read as a literal to their end. -/
theorem literal_plain (plain : Plain whole fraction) (halts : Number.Halts rest) (comma : Bool) :
    Number.literal comma (whole ++ pointed fraction ++ rest) = .found (assemble whole fraction false []) rest := by
  have digits : Apart Char.isDigit rest := halts.apart (by decide) (by decide)
  have letters : rest.dropWhile Char.isAlpha = rest :=
    Apart.dropWhile_all (t := []) (halts.apart (by decide) (by decide)) nofun
  have point := apart_pointed digits fraction
  have decimals : (Number.fraction comma (pointed fraction ++ rest)).getD ([], pointed fraction ++ rest) = (fraction, rest) := by
    cases fraction with
    | nil => exact congrArg (Option.getD · ([], rest)) (halts.fraction comma)
    | cons c fraction =>
      change ((c :: fraction ++ rest).takeWhile Char.isDigit, (c :: fraction ++ rest).dropWhile Char.isDigit) = _
      rw [digits.takeWhile_all plain.fraction, digits.dropWhile_all plain.fraction]
  unfold Number.literal
  rw [List.append_assoc, point.takeWhile_all plain.whole, point.dropWhile_all plain.whole]
  dsimp only
  rw [decimals]
  simp [halts.exponent, halts.suffix, letters, plain.nonempty]

theorem splitSign_digit {c : Char} (digit : c.isDigit = true) (t : Text) : splitSign (c :: t) = (false, c :: t) := by
  unfold splitSign
  split
  · next same => cases (List.cons.inj same).1 ▸ digit
  · next same => cases (List.cons.inj same).1 ▸ digit
  · rfl

theorem asciiLower_digit {c : Char} (digit : c.isDigit = true) (t : Text) : asciiLower (c :: t) = c :: asciiLower t := by
  have small : ¬ c.isUpper = true := by
    simp only [Char.isDigit, Char.isUpper, Bool.and_eq_true, decide_eq_true_eq] at digit ⊢
    rintro ⟨letter, -⟩
    exact absurd (UInt32.le_trans letter digit.2) (by decide)
  rw [asciiLower, List.map_cons, Char.toLower_eq_of_not_isUpper small]
  rfl

/-- Digits with an optional fraction are a number on their own. -/
theorem parse?_plain (plain : Plain whole fraction) :
    parse? (whole ++ pointed fraction) = some (assemble whole fraction false []) := by
  have nothing : Apart Char.isDigit [] := fun _ first => by cases first
  have point : Apart Char.isDigit (pointed fraction ++ []) := apart_pointed nothing fraction
  rw [List.append_nil] at point
  obtain ⟨d, digits, start⟩ := List.exists_cons_of_ne_nil plain.nonempty
  have digit : d.isDigit = true := plain.whole d (start ▸ List.mem_cons_self)
  -- None of the words for infinities and for no number starts with a digit.
  have word {name : Text} {c : Char} (letter : c.isDigit = false) :
      (asciiLower (whole ++ pointed fraction) == c :: name) = false := by
    rw [start, List.cons_append, asciiLower_digit digit, beq_eq_false_iff_ne]
    intro same
    rw [(List.cons.inj same).1, letter] at digit
    cases digit
  have unsigned : unsigned? (whole ++ pointed fraction) = some (assemble whole fraction false []) := by
    unfold unsigned?
    rw [point.takeWhile_all plain.whole, point.dropWhile_all plain.whole]
    dsimp only
    rw [show (asciiLower (whole ++ pointed fraction) == chars "inf") = false from word rfl,
      show (asciiLower (whole ++ pointed fraction) == chars "infinity") = false from word rfl,
      show (asciiLower (whole ++ pointed fraction) == chars "nan") = false from word rfl]
    cases fraction with
    | nil => simp [pointed, exponent?, plain.nonempty]
    | cons c fraction =>
      have digits : (c :: fraction).takeWhile Char.isDigit = c :: fraction := List.takeWhile_eq_self_iff.mpr plain.fraction
      have finished : (c :: fraction).dropWhile Char.isDigit = [] := List.dropWhile_eq_nil_iff.mpr plain.fraction
      simp [pointed, exponent?, digits, finished]
  rw [parse?, start, List.cons_append, splitSign_digit digit, ← List.cons_append, ← start]
  dsimp only
  rw [unsigned]
  rfl

/-! ### The text of a double -/

theorem isDigit_decimalText (n : Nat) : ∀ c ∈ decimalText n, c.isDigit = true :=
  fun _ => Nat.isDigit_of_mem_toDigits (by decide) (by decide)

theorem isDigit_of_mem_replicate {count : Nat} {c : Char} (member : c ∈ List.replicate count '0') : c.isDigit = true := by
  rw [List.eq_of_mem_replicate member]
  rfl

def inFull (s : Scaled) : Text :=
  let digits := decimalText s.digits
  if 0 ≤ s.scale then digits ++ List.replicate s.scale.toNat '0'
  else
    let places := (-s.scale).toNat
    let padded := List.replicate (places + 1 - digits.length) '0' ++ digits
    padded.take (padded.length - places) ++ '.' :: padded.drop (padded.length - places)

theorem exists_plain (s : Scaled) : ∃ whole fraction, Plain whole fraction ∧ inFull s = whole ++ pointed fraction := by
  have nonempty : decimalText s.digits ≠ [] := Nat.toDigits_ne_nil
  have digits := isDigit_decimalText s.digits
  unfold inFull
  dsimp only
  split
  · refine ⟨decimalText s.digits ++ List.replicate s.scale.toNat '0', [], ⟨?_, ?_, nofun⟩, (List.append_nil _).symm⟩
    · exact List.append_ne_nil_of_left_ne_nil nonempty _
    · exact List.forall_mem_append.mpr ⟨digits, fun c => isDigit_of_mem_replicate⟩
  · generalize padding : List.replicate ((-s.scale).toNat + 1 - (decimalText s.digits).length) '0' ++ decimalText s.digits = padded
    have all : ∀ c ∈ padded, c.isDigit = true := by
      rw [← padding]
      exact List.forall_mem_append.mpr ⟨fun c => isDigit_of_mem_replicate, digits⟩
    -- The padding leaves a digit in front of the point.
    have long : (-s.scale).toNat < padded.length := by
      rw [← padding, List.length_append, List.length_replicate]
      omega
    refine ⟨padded.take (padded.length - (-s.scale).toNat), padded.drop (padded.length - (-s.scale).toNat), ⟨?_, ?_, ?_⟩, ?_⟩
    · rw [Ne, List.take_eq_nil_iff, not_or]
      exact ⟨by omega, List.ne_nil_of_length_pos (by omega)⟩
    · exact fun c member => all c (List.mem_of_mem_take member)
    · exact fun c member => all c (List.mem_of_mem_drop member)
    · have behind : (padded.drop (padded.length - (-s.scale).toNat)).isEmpty = false := by
        rw [List.isEmpty_eq_false_iff, Ne, List.drop_eq_nil_iff]
        omega
      rw [pointed, behind]
      rfl

section Parts
open Float.Model.UnpackedFloat

variable {x : Float} {m : Nat} {e : Int} {positive : 0 < m}

theorem positional_eq {s : Sign} (is : Double.parts x = .finite s m e positive) :
    positional x = signed (s == .negative) (inFull (shortest m e).normal) := by
  obtain ⟨k, rfl⟩ := Nat.exists_eq_succ_of_ne_zero positive.ne'
  have value : Binary.ofFloat x = .finite (s == .negative) (k + 1) e := by
    rw [Binary.ofFloat_eq, is]
    rfl
  unfold positional
  rw [value]
  rfl

/-- A negative double is written as its magnitude behind a minus sign. -/
theorem positional_of_negative (is : Double.parts x = .finite .negative m e positive) :
    positional x = '-' :: positional x.abs := by
  have magnitude : Double.parts x.abs = .finite .positive m e positive := by
    rw [Double.parts_abs, is]
    rfl
  rw [positional_eq is, positional_eq magnitude]
  rfl

theorem exists_digit_positional (is : Double.parts x = .finite .positive m e positive) :
    ∃ d digits, positional x = d :: digits ∧ d.isDigit = true := by
  obtain ⟨whole, fraction, plain, text⟩ := exists_plain (shortest m e).normal
  obtain ⟨d, digits, rfl⟩ := List.exists_cons_of_ne_nil plain.nonempty
  exact ⟨d, digits ++ pointed fraction, (positional_eq is).trans text, plain.whole d List.mem_cons_self⟩

/-- Where the text of a positive double reads back, it is the literal of this double, whatever the decimal marks are. -/
theorem literal_positional (is : Double.parts x = .finite .positive m e positive) (reads : parse? (positional x) = some x)
    (halts : Number.Halts rest) (comma : Bool) : Number.literal comma (positional x ++ rest) = .found x rest := by
  obtain ⟨whole, fraction, plain, text⟩ := exists_plain (shortest m e).normal
  have text : positional x = whole ++ pointed fraction := (positional_eq is).trans text
  rw [text, parse?_plain plain] at reads
  rw [text, literal_plain plain halts, Option.some.inj reads]

end Parts

end Decimal

end Netlist
