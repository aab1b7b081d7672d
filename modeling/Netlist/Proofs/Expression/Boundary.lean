import Mathlib.Data.List.Find
import Netlist.Proofs.Expression.Reading

/-!
Numbers and what stands behind them. A literal that is followed by white space, a parenthesis, a quote or, where
the comma is no decimal mark, a comma is read as if nothing followed; so it contains none of them.
-/
namespace Netlist

def Apart (p : Char → Bool) (t : Text) : Prop := ∀ c, t.head? = some c → p c = false

section Apart

variable {p : Char → Bool} {tail : Text}

theorem Apart.takeWhile (apart : Apart p tail) (t : Text) : (t ++ tail).takeWhile p = t.takeWhile p := by
  induction t with
  | nil =>
    cases tail with
    | nil => rfl
    | cons c tail => exact List.takeWhile_cons_of_neg (by simp [apart c rfl])
  | cons c t ih =>
    cases holds : p c with
    | true => rw [List.cons_append, List.takeWhile_cons_of_pos holds, List.takeWhile_cons_of_pos holds, ih]
    | false => rw [List.cons_append, List.takeWhile_cons_of_neg (by simp [holds]), List.takeWhile_cons_of_neg (by simp [holds])]

theorem Apart.dropWhile (apart : Apart p tail) (t : Text) : (t ++ tail).dropWhile p = t.dropWhile p ++ tail := by
  induction t with
  | nil =>
    cases tail with
    | nil => rfl
    | cons c tail => exact List.dropWhile_cons_of_neg (by simp [apart c rfl])
  | cons c t ih =>
    cases holds : p c with
    | true => rw [List.cons_append, List.dropWhile_cons_of_pos holds, List.dropWhile_cons_of_pos holds, ih]
    | false =>
      rw [List.cons_append, List.dropWhile_cons_of_neg (by simp [holds]), List.dropWhile_cons_of_neg (by simp [holds])]
      rfl

end Apart

namespace Number

def Scan.extend {α : Type} (tail : Text) : Scan α → Scan α
  | found value rest => found value (rest ++ tail)
  | absent => absent
  | torn => torn

theorem Scan.found_of_extend {α : Type} {scan : Scan α} {v : α} {rest tail : Text}
    (found : scan.extend tail = .found v (rest ++ tail)) : scan = .found v rest := by
  cases scan with
  | found value left =>
    simp only [extend, Scan.found.injEq] at found
    rw [found.1, List.append_cancel_right found.2]
  | absent => cases found
  | torn => cases found

def endsLiteral (comma : Bool) (c : Char) : Bool :=
  isWhiteSpace c || c == '(' || c == ')' || c == '"' || (!comma && c == ',')

def Stops (comma : Bool) (tail : Text) : Prop := ∀ c, tail.head? = some c → endsLiteral comma c = true

def enders : List Char :=
  ([9, 10, 11, 12, 13, 32, 0x85, 0xA0, 0x1680, 0x2000, 0x2001, 0x2002, 0x2003, 0x2004, 0x2005, 0x2006, 0x2007, 0x2008,
    0x2009, 0x200A, 0x2028, 0x2029, 0x202F, 0x205F, 0x3000].map Char.ofNat) ++ ['(', ')', '"', ',']

theorem mem_enders {comma : Bool} {c : Char} (ends : endsLiteral comma c = true) : c ∈ enders := by
  simp only [endsLiteral, Bool.or_eq_true, Bool.and_eq_true, beq_iff_eq] at ends
  rcases ends with (((blank | rfl) | rfl) | rfl) | ⟨-, rfl⟩
  case inl.inl.inl.inl =>
    refine List.mem_append_left _ ?_
    rw [← Char.ofNat_toNat c]
    refine List.mem_map_of_mem ?_
    simp only [isWhiteSpace, Bool.or_eq_true, Bool.and_eq_true, decide_eq_true_eq] at blank
    simp only [List.mem_cons, List.not_mem_nil, or_false]
    omega
  all_goals decide

theorem comma_of_endsLiteral {comma : Bool} (ends : endsLiteral comma ',' = true) : comma = false := by
  cases comma with
  | false => rfl
  | true => cases ends

section Stops

variable {comma : Bool} {tail : Text}

theorem Stops.apart (stops : Stops comma tail) {p : Char → Bool} (off : enders.all (fun c => !p c) = true) :
    Apart p tail := by
  intro c first
  simpa using List.all_eq_true.mp off c (mem_enders (stops c first))

theorem fraction_append (stops : Stops comma tail) (t : Text) :
    fraction comma (t ++ tail) = (fraction comma t).map fun found => (found.1, found.2 ++ tail) := by
  have digits : Apart Char.isDigit tail := stops.apart (by decide)
  cases t with
  | nil =>
    cases tail with
    | nil => rfl
    | cons c tail =>
      have point : (c == '.') = false := stops.apart (p := (· == '.')) (by decide) c rfl
      have mark : c = ',' → comma = false := fun same => comma_of_endsLiteral (same ▸ stops c rfl)
      show fraction comma (c :: tail) = none
      unfold fraction
      split
      · next same =>
        rw [(List.cons.inj same).1] at point
        cases point
      · next same => simp [mark (List.cons.inj same).1]
      · rfl
  | cons c t =>
    by_cases point : c = '.'
    · subst point
      simp [fraction, digits.takeWhile, digits.dropWhile]
    · by_cases mark : c = ','
      · subst mark
        simp only [List.cons_append, fraction, digits.takeWhile, digits.dropWhile]
        split <;> rfl
      · unfold fraction
        split
        · next same => exact absurd (List.cons.inj same).1 point
        · next same => exact absurd (List.cons.inj same).1 mark
        · split
          · next same => exact absurd (List.cons.inj same).1 point
          · next same => exact absurd (List.cons.inj same).1 mark
          · rfl

theorem splitSign_append (stops : Stops comma tail) (t : Text) :
    Decimal.splitSign (t ++ tail) = ((Decimal.splitSign t).1, (Decimal.splitSign t).2 ++ tail) := by
  cases t with
  | nil =>
    cases tail with
    | nil => rfl
    | cons c tail =>
      have unsigned : ([ '+', '-' ].contains c) = false := stops.apart (p := [ '+', '-' ].contains) (by decide) c rfl
      show Decimal.splitSign (c :: tail) = (false, c :: tail)
      unfold Decimal.splitSign
      split
      · next same => simp [(List.cons.inj same).1] at unsigned
      · next same => simp [(List.cons.inj same).1] at unsigned
      · rfl
  | cons c t =>
    unfold Decimal.splitSign
    split
    · next same =>
      obtain ⟨rfl, rfl⟩ := List.cons.inj same
      rfl
    · next same =>
      obtain ⟨rfl, rfl⟩ := List.cons.inj same
      rfl
    · next minus plus =>
      split
      · next same => exact absurd (congrArg (· ++ tail) same) (minus _)
      · next same => exact absurd (congrArg (· ++ tail) same) (plus _)
      · rfl

theorem exponent_append (stops : Stops comma tail) (t : Text) :
    exponent (t ++ tail) = (exponent t).map fun found => (found.1, found.2.1, found.2.2 ++ tail) := by
  have digits : Apart Char.isDigit tail := stops.apart (by decide)
  cases t with
  | nil =>
    cases tail with
    | nil => rfl
    | cons c tail =>
      have mark : (c == 'e' || c == 'E') = false := stops.apart (p := fun c => c == 'e' || c == 'E') (by decide) c rfl
      show exponent (c :: tail) = none
      simp [exponent, mark]
  | cons c t =>
    simp only [List.cons_append, exponent, splitSign_append stops, digits.takeWhile, digits.dropWhile]
    split <;> rfl

/-- No suffix reaches into what follows, since the names of suffixes have letters only. -/
theorem startsWithSuffix_append (stops : Stops comma tail) {name : Text} {scale : Float} (member : (name, scale) ∈ suffixes)
    (t : Text) : startsWithSuffix name (t ++ tail) = startsWithSuffix name t := by
  unfold startsWithSuffix
  rcases Nat.lt_or_ge t.length name.length with short | long
  · rw [decide_eq_false (Nat.not_le_of_lt short), Bool.false_and, Bool.and_eq_false_iff, beq_eq_false_iff_ne]
    right
    intro same
    cases tail with
    | nil =>
      have length := congrArg List.length same
      simp at length
      omega
    | cons c tail =>
      have inside : c ∈ (t ++ c :: tail).take name.length := by
        rw [List.take_append, List.take_of_length_le (Nat.le_of_lt short)]
        obtain ⟨n, more⟩ := Nat.exists_eq_add_of_lt short
        rw [show name.length - t.length = n + 1 by omega]
        exact List.mem_append_right _ List.mem_cons_self
      have letters : ∀ entry ∈ suffixes, entry.1.all Char.isLower = true := by decide
      have lower : (suffixLetter c).isLower = true :=
        List.all_eq_true.mp (letters _ member) _ (same ▸ List.mem_map_of_mem inside)
      have other : (suffixLetter c).isLower = false := stops.apart (p := fun c => (suffixLetter c).isLower) (by decide) c rfl
      rw [other] at lower
      cases lower
  · rw [List.take_append_of_le_length long, List.length_append, decide_eq_true long,
      decide_eq_true (Nat.le_add_right_of_le long)]

theorem suffix_append (stops : Stops comma tail) (t : Text) : suffix (t ++ tail) = (suffix t).extend tail := by
  have same : (suffixes.find? fun entry => startsWithSuffix entry.1 (t ++ tail)) =
      suffixes.find? fun entry => startsWithSuffix entry.1 t :=
    List.find?_congr fun entry member => startsWithSuffix_append stops member t
  unfold suffix
  dsimp only at same ⊢
  rw [same]
  cases found : suffixes.find? fun entry => startsWithSuffix entry.1 t with
  | none => rfl
  | some entry =>
    have starts := List.find?_some found
    simp only [startsWithSuffix, Bool.and_eq_true, decide_eq_true_eq] at starts
    dsimp only
    rw [List.take_append_of_le_length starts.1, List.drop_append_of_le_length starts.1]
    split <;> rfl

/-- A literal does not depend on what follows, where that ends it. -/
theorem literal_append (stops : Stops comma tail) (t : Text) : literal comma (t ++ tail) = (literal comma t).extend tail := by
  have digits : Apart Char.isDigit tail := stops.apart (by decide)
  have letters : Apart Char.isAlpha tail := stops.apart (by decide)
  have decimals (u : Text) : (fraction comma (u ++ tail)).getD ([], u ++ tail) =
      (((fraction comma u).getD ([], u)).1, ((fraction comma u).getD ([], u)).2 ++ tail) := by
    rw [fraction_append stops]
    cases fraction comma u <;> rfl
  have power (u : Text) : (exponent (u ++ tail)).getD (false, [], u ++ tail) =
      (((exponent u).getD (false, [], u)).1, ((exponent u).getD (false, [], u)).2.1,
        ((exponent u).getD (false, [], u)).2.2 ++ tail) := by
    rw [exponent_append stops]
    cases exponent u <;> rfl
  unfold literal
  simp only [digits.takeWhile, digits.dropWhile, decimals, power, suffix_append stops]
  split
  · rfl
  · cases suffix _ with
    | absent => simp only [Scan.extend, letters.dropWhile]
    | found scale rest => simp only [Scan.extend, letters.dropWhile]
    | torn => rfl

end Stops

/-- A literal contains nothing that ends it. -/
theorem endsLiteral_of_literal {comma : Bool} {p rest : Text} {v : Float} (read : literal comma (p ++ rest) = .found v rest) {c : Char}
    (inside : c ∈ p) : endsLiteral comma c = false := by
  by_contra ends
  obtain ⟨front, back, rfl⟩ := List.append_of_mem inside
  have stops : Stops comma (c :: back ++ rest) := by
    intro d first
    cases first
    simpa using ends
  rw [List.append_assoc, literal_append stops] at read
  cases front_read : literal comma front with
  | absent | torn =>
    rw [front_read] at read
    cases read
  | found w left =>
    rw [front_read] at read
    have size := congrArg List.length (Scan.found.inj read).2
    simp only [List.length_append, List.length_cons] at size
    omega

end Number

end Netlist
