import Netlist.Proofs.Expression.Reading
import Netlist.Proofs.Pattern.Sets
import Netlist.Proofs.Pattern.Reads
import Netlist.Proofs.Spice.Markers

/-!
Numerals. The pattern of numbers and the parser of literals stop at the same place of every text, but for
the letters of a unit: two characters beyond ASCII are letters to the pattern alone.
-/
namespace Netlist.Spice

open Pattern Cursor Number Decimal

def digitSet : CharSet := .ignoringCase (.ofRanges [('0', '9')])

def letterSet : CharSet := .ignoringCase (.ofRanges [('a', 'z')])

def signSet : CharSet := .ignoringCase (.ofList (chars "+-"))

def markSet : CharSet := .ignoringCase (.ofList (chars "eE"))

def pointSet : CharSet := .ignoringCase (.single '.')

/-- A character beyond ASCII that is an ASCII letter up to case. -/
def isLookalike (x : Char) : Bool := x == '\u212a' || x == '\u017f'

def isLetterForm (x : Char) : Bool := x.isAlpha || isLookalike x

theorem ne_of_beyond {x c : Char} (beyond : 128 ≤ x.toNat) (ascii : c.toNat < 128) : x ≠ c := by
  rintro rfl
  omega

theorem isAlpha_of_beyond {x : Char} (beyond : 128 ≤ x.toNat) : x.isAlpha = false := by
  have z : 'Z'.val.toNat = 90 := rfl
  have z' : 'z'.val.toNat = 122 := rfl
  have own : x.val.toNat = x.toNat := rfl
  delta Char.isAlpha Char.isUpper Char.isLower
  simp only [Bool.or_eq_false_iff, Bool.and_eq_false_iff, decide_eq_false_iff_not,
    ge_iff_le, UInt32.le_iff_toNat_le]
  omega

theorem isDigit_of_beyond {x : Char} (beyond : 128 ≤ x.toNat) : x.isDigit = false := by
  have nine : '9'.toNat = 57 := rfl
  rw [Bool.eq_false_iff, Ne, Char.isDigit_iff_toNat]
  omega

theorem contains_digitSet (x : Char) : digitSet.contains x = x.isDigit := by
  refine CharSet.contains_eq_of_ascii (by decide) (by decide +kernel) (by decide +kernel) (by decide +kernel) ?_ x
  intro x beyond _ _
  exact isDigit_of_beyond beyond

theorem contains_letterSet (x : Char) : letterSet.contains x = isLetterForm x := by
  refine CharSet.contains_eq_of_ascii (by decide) (by decide +kernel) (by decide +kernel) (by decide +kernel) ?_ x
  intro x beyond kelvin long
  simp [isLetterForm, isLookalike, isAlpha_of_beyond beyond, kelvin, long]

theorem contains_signSet (x : Char) : signSet.contains x = [ '+', '-' ].contains x :=
  CharSet.contains_caseless_list (by decide) x

theorem contains_markSet (x : Char) : markSet.contains x = [ 'e', 'E' ].contains x := by
  refine CharSet.contains_eq_of_ascii (f := [ 'e', 'E' ].contains) (by decide) (by decide +kernel) (by decide +kernel)
    (by decide +kernel) ?_ x
  intro x beyond _ _
  simp [ne_of_beyond beyond]

theorem contains_pointSet (x : Char) : pointSet.contains x = (x == '.') :=
  CharSet.contains_caseless (by decide) x

/-! ### Where the match of the pattern ends -/

def startsMantissa : Text → Bool
  | '.' :: rest => rest.head?.any Char.isDigit
  | t => t.head?.any Char.isDigit

def afterMantissa (t : Text) : Text := ((fraction false (t.dropWhile Char.isDigit)).getD ([], t.dropWhile Char.isDigit)).2

def afterPower (t : Text) : Text := ((Number.exponent t).getD (false, [], t)).2.2

theorem afterExponent_eq (t : Text) : afterExponent false t = afterPower (afterMantissa t) := rfl

variable {t rest : Text}

theorem reads_digits : (oneOrMore (.set digitSet)).Reads fun t =>
    if t.head?.any Char.isDigit then some (t.dropWhile Char.isDigit) else none := by
  refine (Reads.oneOrMore digitSet).congr fun t => ?_
  have same : digitSet.contains = Char.isDigit := funext contains_digitSet
  cases t with
  | nil => rfl
  | cons x t => cases digit : x.isDigit <;> simp [behind?, same, digit]

theorem behind?_signSet (t : Text) : (behind? signSet t).getD t = (splitSign t).2 := by
  unfold splitSign
  split
  · rfl
  · rfl
  · next minus plus =>
    cases t with
    | nil => rfl
    | cons x t =>
      have other : signSet.contains x = false := by
        rw [contains_signSet, Bool.eq_false_iff]
        intro member
        rcases List.mem_pair.mp (List.contains_iff_mem.mp member) with rfl | rfl
        · exact plus t rfl
        · exact minus t rfl
      simp [behind?, other]

theorem fraction_of_ne_point (apart : t.head? ≠ some '.') : fraction false t = none := by
  unfold fraction
  split
  · exact absurd rfl apart
  · rfl
  · rfl

theorem reads_fraction : (optional (.seq (.set pointSet) (many (.set digitSet)))).Reads fun t =>
    some ((fraction false t).getD ([], t)).2 := by
  refine (Reads.setThen (Reads.many digitSet)).optional.congr fun t => ?_
  have digits : digitSet.contains = Char.isDigit := funext contains_digitSet
  cases t with
  | nil => rfl
  | cons x t =>
    by_cases point : x = '.'
    · simp [behind?_cons, contains_pointSet, point, fraction, digits]
    · rw [fraction_of_ne_point (by simpa using point)]
      simp [behind?_cons, contains_pointSet, point]

theorem startsMantissa_cons {x : Char} (apart : x ≠ '.') (t : Text) : startsMantissa (x :: t) = x.isDigit := by
  unfold startsMantissa
  split
  · next eq => exact absurd (List.cons.inj eq).1 apart
  · rfl

theorem reads_mantissa : mantissa.ignoringCase.Reads fun t => if startsMantissa t then some (afterMantissa t) else none := by
  have whole := reads_digits.seq reads_fraction fun _ _ _ => nofun
  refine (whole.alt (Reads.setThen (s := pointSet) reads_digits)).congr fun t => ?_
  cases t with
  | nil => rfl
  | cons x t =>
    by_cases point : x = '.'
    · have other : Char.isDigit '.' = false := by decide
      simp [point, other, behind?_cons, contains_pointSet, startsMantissa, afterMantissa, fraction]
    · cases digit : x.isDigit <;> simp [startsMantissa_cons point, digit, afterMantissa, behind?_cons, contains_pointSet, point]

theorem isEmpty_takeWhile_digits (t : Text) : (t.takeWhile Char.isDigit).isEmpty = !t.head?.any Char.isDigit := by
  cases t with
  | nil => rfl
  | cons x t => cases digit : x.isDigit <;> simp [digit]

theorem reads_exponent : exponent.ignoringCase.Reads fun t => (Number.exponent t).map (·.2.2) := by
  have signed := Reads.optionalSetThen (s := signSet) reads_digits fun x t sign => by
    have other : x.isDigit = false := by
      rw [contains_signSet] at sign
      rcases List.mem_pair.mp (List.contains_iff_mem.mp sign) with rfl | rfl <;> decide
    simp [other]
  refine (Reads.setThen (s := markSet) signed).congr fun t => ?_
  cases t with
  | nil => rfl
  | cons x t =>
    have marks : ['e', 'E'].contains x = (x == 'e' || x == 'E') := by simp [Bool.beq_eq_decide_eq]
    simp only [behind?_cons, contains_markSet, marks, behind?_signSet, Number.exponent, isEmpty_takeWhile_digits]
    cases x == 'e' || x == 'E' with
    | false => rfl
    | true => cases digit : (splitSign t).2.head?.any Char.isDigit <;> simp [digit]

theorem reads_power : (optional exponent.ignoringCase).Reads fun t => some (afterPower t) := by
  refine reads_exponent.optional.congr fun t => ?_
  rw [afterPower]
  cases Number.exponent t <;> rfl

theorem letter_of_scaleSuffix {x : Char} (used : scaleSuffix.ignoringCase.uses x = true) : letterSet.contains x = true := by
  obtain ⟨c, form, used⟩ := uses_ignoringCase used
  refine List.any_eq_true.mpr ⟨c, form, ?_⟩
  have letters : c ∈ chars "megmiltgkmunpf" := by
    simpa [scaleSuffix, oneOfThese, literally, inOrder, anyOf, uses, chars, or_assoc] using used
  have all : (chars "megmiltgkmunpf").all (CharSet.ofRanges [('a', 'z')]).contains = true := by decide
  exact List.all_eq_true.mp all c letters

theorem reads_number : number.ignoringCase.Reads fun t =>
    if startsMantissa (splitSign t).2 then some ((afterExponent false (splitSign t).2).dropWhile isLetterForm) else none := by
  have letters : letterSet.contains = isLetterForm := funext contains_letterSet
  have unit := Reads.optionalThenMany (p := scaleSuffix.ignoringCase) (s := letterSet) fun _ => letter_of_scaleSuffix
  have power := reads_power.seq unit fun _ _ _ => nofun
  have unsigned := reads_mantissa.seq power fun _ _ _ => nofun
  refine (Reads.optionalSetThen (s := signSet) unsigned fun x t sign => ?_).congr fun t => ?_
  · rw [contains_signSet] at sign
    rcases List.mem_pair.mp (List.contains_iff_mem.mp sign) with rfl | rfl <;> rfl
  · simp only [behind?_signSet, letters]
    cases startsMantissa (splitSign t).2 <;> rfl

/-! ### What the pattern matches -/

variable {c e : Cursor} {l : Text}

def isNumeralPart (x : Char) : Bool := x.isDigit || (chars "+-.eE").contains x

theorem optional_reaches {p : Pattern} (reached : (optional p).Reaches c e) : e = c ∨ p.Reaches c e := by
  obtain ⟨n, _, few, rounds⟩ := reached
  cases rounds with
  | none => exact .inl rfl
  | @more n c d e first rest =>
    have single : n + 1 ≤ max 0 1 := few 1 rfl
    obtain rfl : n = 0 := by omega
    cases rest
    exact .inr first

theorem caseless_reaches {x : Char} (caseless : Caseless x) (reached : (Pattern.set (.ignoringCase (.single x))).Reaches c e) :
    Spans [x] c e := by
  obtain ⟨y, rest, eq, inside, rfl⟩ := reached
  rw [CharSet.contains_caseless caseless, beq_iff_eq] at inside
  subst inside
  exact ⟨eq, rfl, rfl⟩

theorem digits_reach (reached : (oneOrMore (.set digitSet)).Reaches c e) :
    ∃ digits, Spans digits c e ∧ digits ≠ [] ∧ ∀ x ∈ digits, x.isDigit = true := by
  obtain ⟨digits, spans, consumes⟩ := reached.consumes
  refine ⟨digits, spans, fun empty => ?_, fun x member => ?_⟩
  · exact absurd (consumes.nullable empty) nofun
  rw [← contains_digitSet]
  exact consumes.inside x member

def EndsMantissa (l : Text) : Prop := ∀ x, l.head? = some x → x.isDigit = false ∧ x ≠ '.'

theorem dropWhile_digits {digits : Text} (all : ∀ x ∈ digits, x.isDigit = true) (ends : EndsMantissa l) :
    (digits ++ l).dropWhile Char.isDigit = l := by
  rw [List.dropWhile_append_of_pos all]
  cases l with
  | nil => rfl
  | cons x l => exact List.dropWhile_cons_of_neg (by simp [(ends x rfl).1])

theorem starts_of_digits {digits : Text} (nonempty : digits ≠ []) (all : ∀ x ∈ digits, x.isDigit = true) (l : Text) :
    (digits ++ l).head?.any Char.isDigit = true ∧ startsMantissa (digits ++ l) = true := by
  obtain ⟨x, digits, rfl⟩ := List.exists_cons_of_ne_nil nonempty
  have first := all x List.mem_cons_self
  have apart : x ≠ '.' := by
    rintro rfl
    exact absurd first (by decide)
  exact ⟨first, (startsMantissa_cons apart _).trans first⟩

theorem mantissa_reaches (reached : mantissa.ignoringCase.Reaches c e) :
    ∃ m, Spans m c e ∧ (∀ x ∈ m, x.isDigit = true ∨ x = '.') ∧
      ∀ l, EndsMantissa l → startsMantissa (m ++ l) = true ∧ afterMantissa (m ++ l) = l := by
  have other : Char.isDigit '.' = false := by decide
  -- A point with digits behind it, of which there may be none if there are some before it.
  have pointed {c d e : Cursor} {digits : Text} (point : (Pattern.set pointSet).Reaches c d) (spans : Spans digits d e)
      (all : ∀ x ∈ digits, x.isDigit = true) : Spans ('.' :: digits) c e :=
    (caseless_reaches (by decide) point).trans spans
  rcases reached with ⟨d, whole, rest⟩ | ⟨d, point, fractional⟩
  · obtain ⟨digits, spans, nonempty, all⟩ := digits_reach whole
    rcases optional_reaches rest with rfl | ⟨d', point, fractional⟩
    · refine ⟨digits, spans, fun x member => .inl (all x member), fun l ends => ⟨(starts_of_digits nonempty all l).2, ?_⟩⟩
      rw [afterMantissa, dropWhile_digits all ends, fraction_of_ne_point fun point => (ends '.' point).2 rfl]
      rfl
    · obtain ⟨digits', spans', consumes⟩ := fractional.consumes
      have all' : ∀ x ∈ digits', x.isDigit = true := fun x member => contains_digitSet x ▸ consumes.inside x member
      refine ⟨digits ++ '.' :: digits', spans.trans (pointed point spans' all'), fun x member => ?_, fun l ends => ?_⟩
      · rcases List.mem_append.mp member with here | there
        · exact .inl (all x here)
        · exact (List.mem_cons.mp there).symm.imp_left (all' x)
      · rw [List.append_assoc]
        refine ⟨(starts_of_digits nonempty all _).2, ?_⟩
        have stop : ('.' :: digits' ++ l).dropWhile Char.isDigit = '.' :: digits' ++ l := List.dropWhile_cons_of_neg (by simp [other])
        rw [afterMantissa, List.dropWhile_append_of_pos all, stop]
        exact dropWhile_digits all' ends
  · obtain ⟨digits, spans, nonempty, all⟩ := digits_reach fractional
    refine ⟨'.' :: digits, pointed point spans all, fun x member => ?_, fun l ends => ⟨(starts_of_digits nonempty all l).1, ?_⟩⟩
    · exact (List.mem_cons.mp member).symm.imp_left (all x)
    · have stop : ('.' :: digits ++ l).dropWhile Char.isDigit = '.' :: digits ++ l := List.dropWhile_cons_of_neg (by simp [other])
      rw [afterMantissa, stop]
      exact dropWhile_digits all ends

theorem isLetterForm_apart {x : Char} (letter : isLetterForm x = true) :
    x.isDigit = false ∧ x ≠ '.' ∧ x ≠ '+' ∧ x ≠ '-' := by
  rcases Nat.lt_or_ge x.toNat 128 with low | beyond
  · have all : ∀ c : Char, c.toNat < 128 → isLetterForm c = true → c.isDigit = false ∧ c ≠ '.' ∧ c ≠ '+' ∧ c ≠ '-' :=
      forall_ascii (by decide +kernel)
    exact all x low letter
  · exact ⟨isDigit_of_beyond beyond, ne_of_beyond beyond (by decide), ne_of_beyond beyond (by decide),
      ne_of_beyond beyond (by decide)⟩

theorem endsMantissa_of_letters (letters : ∀ x ∈ l, isLetterForm x = true) : EndsMantissa l := by
  intro x first
  have apart := isLetterForm_apart (letters x (List.mem_of_mem_head? first))
  exact ⟨apart.1, apart.2.1⟩

theorem splitSign_of_unsigned (apart : ∀ x, t.head? = some x → x ≠ '+' ∧ x ≠ '-') : splitSign t = (false, t) := by
  unfold splitSign
  split
  · exact absurd rfl (apart '-' rfl).2
  · exact absurd rfl (apart '+' rfl).1
  · rfl

/-- Letters are no exponent, since a letter is no digit. -/
theorem exponent_of_letters (letters : ∀ x ∈ l, isLetterForm x = true) : Number.exponent l = none := by
  cases l with
  | nil => rfl
  | cons x l =>
    have behind : ∀ y, l.head? = some y → isLetterForm y = true :=
      fun y first => letters y (List.mem_cons_of_mem _ (List.mem_of_mem_head? first))
    have unsigned := splitSign_of_unsigned fun y first => (isLetterForm_apart (behind y first)).2.2
    have undigited : l.takeWhile Char.isDigit = [] := by
      cases l with
      | nil => rfl
      | cons y l => exact List.takeWhile_cons_of_neg (by simp [(isLetterForm_apart (behind y rfl)).1])
    simp [Number.exponent, unsigned, undigited]

theorem sign_reaches (reached : (optional (.set signSet)).Reaches c e) :
    ∃ w, Spans w c e ∧ (∀ x ∈ w, isNumeralPart x = true) ∧
      ∀ t : Text, (∀ x, t.head? = some x → x ≠ '+' ∧ x ≠ '-') → (splitSign (w ++ t)).2 = t := by
  rcases optional_reaches reached with rfl | ⟨x, rest, eq, inside, rfl⟩
  · exact ⟨[], .here e, nofun, fun t apart => congrArg Prod.snd (splitSign_of_unsigned apart)⟩
  · rw [contains_signSet] at inside
    refine ⟨[x], ⟨eq, rfl, rfl⟩, ?_, fun t _ => ?_⟩
    · rw [List.forall_mem_singleton]
      rcases List.mem_pair.mp (List.contains_iff_mem.mp inside) with rfl | rfl <;> rfl
    · rcases List.mem_pair.mp (List.contains_iff_mem.mp inside) with rfl | rfl <;> rfl

theorem isNumeralPart_of_digit {x : Char} (digit : x.isDigit = true) : isNumeralPart x = true := by
  rw [isNumeralPart, digit, Bool.true_or]

theorem unsigned_of_digit {x : Char} (digit : x.isDigit = true) : x ≠ '+' ∧ x ≠ '-' := by
  constructor <;> rintro rfl <;> exact absurd digit (by decide)

theorem unsigned_of_starts (starts : startsMantissa t = true) : ∀ x, t.head? = some x → x ≠ '+' ∧ x ≠ '-' := by
  intro x first
  obtain ⟨rest, rfl⟩ := List.head?_eq_some_iff.mp first
  by_cases point : x = '.'
  · subst point
    decide
  · rw [startsMantissa_cons point] at starts
    exact unsigned_of_digit starts

theorem power_reaches (reached : (optional exponent.ignoringCase).Reaches c e) :
    ∃ w, Spans w c e ∧ (∀ x ∈ w, isNumeralPart x = true) ∧
      ∀ l, (∀ x ∈ l, isLetterForm x = true) → EndsMantissa (w ++ l) ∧ afterPower (w ++ l) = l := by
  rcases optional_reaches reached with rfl | ⟨d, ⟨x, rest, eq, mark, rfl⟩, d', sign, power⟩
  · refine ⟨[], .here e, nofun, fun l letters => ⟨endsMantissa_of_letters letters, ?_⟩⟩
    rw [List.nil_append, afterPower, exponent_of_letters letters]
    rfl
  · obtain ⟨w, spans, parts, unsigned⟩ := sign_reaches sign
    obtain ⟨digits, spans', present, all⟩ := digits_reach power
    have mark' : x = 'e' ∨ x = 'E' := by
      rw [show (CharSet.ignoringCase (.ofList (chars "eE"))).contains x = _ from contains_markSet x] at mark
      exact List.mem_pair.mp (List.contains_iff_mem.mp mark)
    have single : Spans [x] c ⟨some x, rest, c.offset + 1⟩ := ⟨eq, rfl, rfl⟩
    refine ⟨x :: (w ++ digits), single.trans (spans.trans spans'), ?_, fun l letters => ⟨?_, ?_⟩⟩
    · intro y member
      rcases List.mem_cons.mp member with rfl | member
      · rcases mark' with rfl | rfl <;> decide
      · exact (List.mem_append.mp member).elim (parts y) fun there => isNumeralPart_of_digit (all y there)
    · intro y first
      obtain rfl := Option.some.inj first
      rcases mark' with rfl | rfl <;> decide
    · obtain ⟨y, digits, rfl⟩ := List.exists_cons_of_ne_nil present
      have first := all y List.mem_cons_self
      have split : (splitSign (w ++ (y :: digits ++ l))).2 = y :: digits ++ l := by
        refine unsigned _ fun z head => ?_
        obtain rfl := Option.some.inj head
        exact unsigned_of_digit first
      have marked : (x == 'e' || x == 'E') = true := by simpa using mark'
      have nonempty : ((y :: digits ++ l).takeWhile Char.isDigit).isEmpty = false := by simp [first]
      rw [afterPower, List.cons_append, List.append_assoc, Number.exponent]
      dsimp only
      rw [split, marked, nonempty]
      exact dropWhile_digits all (endsMantissa_of_letters letters)

/-- A text that the pattern matches: behind its mantissa and exponent there are only letters, or what the
pattern takes for letters. -/
structure Numeral (w : Text) : Prop where
  starts : startsMantissa (splitSign w).2 = true
  letters : ∀ x ∈ afterExponent false (splitSign w).2, isLetterForm x = true
  front : ∃ front, w = front ++ afterExponent false (splitSign w).2 ∧ ∀ x ∈ front, isNumeralPart x = true

theorem number_reaches (reached : number.ignoringCase.Reaches c e) : ∃ w, Spans w c e ∧ Numeral w := by
  obtain ⟨d₁, sign, d₂, whole, d₃, power, d₄, suffix, letters⟩ := reached
  obtain ⟨s, spans₁, parts₁, unsigned⟩ := sign_reaches sign
  obtain ⟨m, spans₂, inside, mantissa⟩ := mantissa_reaches whole
  obtain ⟨p, spans₃, parts₃, exponent⟩ := power_reaches power
  obtain ⟨k, spans₄, consumes⟩ := suffix.consumes
  obtain ⟨l, spans₅, consumes'⟩ := letters.consumes
  have forms : ∀ x ∈ k ++ l, isLetterForm x = true := by
    intro x member
    rw [← contains_letterSet]
    rcases List.mem_append.mp member with here | there
    · exact letter_of_scaleSuffix (consumes.inside x here)
    · exact consumes'.inside x there
  obtain ⟨ends, power⟩ := exponent (k ++ l) forms
  obtain ⟨starts, behind⟩ := mantissa _ ends
  have split : (splitSign (s ++ (m ++ (p ++ (k ++ l))))).2 = m ++ (p ++ (k ++ l)) :=
    unsigned _ (unsigned_of_starts starts)
  refine ⟨_, spans₁.trans (spans₂.trans (spans₃.trans (spans₄.trans spans₅))), ?_, ?_, s ++ m ++ p, ?_, ?_⟩
  · rw [split]
    exact starts
  · rw [split, afterExponent_eq, behind, power]
    exact forms
  · rw [split, afterExponent_eq, behind, power]
    simp
  · intro x member
    rw [List.mem_append, List.mem_append] at member
    rcases member with (here | here) | here
    · exact parts₁ x here
    · rcases inside x here with digit | rfl
      · exact isNumeralPart_of_digit digit
      · decide
    · exact parts₃ x here

end Netlist.Spice
