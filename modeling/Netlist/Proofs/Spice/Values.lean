import Netlist.Proofs.Spice.Lexemes
import Netlist.Proofs.Spice.Numerals
import Netlist.Spice.Value

/-!
Values of numbers. Without the two characters beyond ASCII that the pattern of numbers takes for letters, the
parser of literals accepts what the pattern matches and stops where it ends; with one of them a token is no
value.
-/
namespace Netlist

namespace Number
open Spice

variable {t u rest : Text}

theorem absent_iff (t : Text) : ((t.takeWhile Char.isDigit).isEmpty &&
    ((fraction false (t.dropWhile Char.isDigit)).getD ([], t.dropWhile Char.isDigit)).1.isEmpty) = !startsMantissa t := by
  cases t with
  | nil => rfl
  | cons x t =>
    by_cases point : x = '.'
    · have other : Char.isDigit '.' = false := by decide
      simp [point, other, fraction, startsMantissa, isEmpty_takeWhile_digits]
    · rw [startsMantissa_cons point]
      cases digit : x.isDigit with
      | true => simp [digit]
      | false =>
        have flat : fraction false (x :: t) = none := fraction_of_ne_point (by simpa using point)
        simp [digit, flat]

theorem literal_of_silent (silent : startsMantissa t = false) : literal false t = .absent := by
  have empty := absent_iff t
  rw [silent] at empty
  unfold literal
  exact if_pos empty

theorem literal_of_starts (starts : startsMantissa t = true) : ∃ mantissa,
    literal false t = match suffix (afterExponent false t) with
      | .torn => .torn
      | .absent => .found mantissa ((afterExponent false t).dropWhile Char.isAlpha)
      | .found scale rest => .found (mantissa * scale) (rest.dropWhile Char.isAlpha) := by
  have present := absent_iff t
  rw [starts] at present
  unfold literal
  dsimp only
  rw [if_neg (by rw [present]; exact Bool.false_ne_true)]
  exact ⟨_, rfl⟩

theorem length_le_byteSize (t : Text) : t.length ≤ byteSize t := by
  induction t with
  | nil => exact Nat.le_refl 0
  | cons x t ih =>
    have := x.utf8Size_pos
    rw [byteSize_cons, List.length_cons]
    omega

theorem byteSize_eq_length_iff (t : Text) : byteSize t = t.length ↔ ∀ x ∈ t, x.utf8Size = 1 := by
  induction t with
  | nil => simp
  | cons x t ih =>
    have positive := x.utf8Size_pos
    have more := length_le_byteSize t
    rw [List.forall_mem_cons, ← ih, byteSize_cons, List.length_cons]
    omega

theorem cases_suffixLetter {x : Char} (lower : (suffixLetter x).isLower = true) :
    x = '\u212a' ∨ x.isAlpha = true ∧ x.utf8Size = 1 := by
  by_cases kelvin : x = '\u212a'
  · exact .inl kelvin
  · rcases Nat.lt_or_ge x.toNat 128 with low | beyond
    · have all : ∀ c : Char, c.toNat < 128 → (suffixLetter c).isLower = true → c.isAlpha = true :=
        forall_ascii (by decide +kernel)
      exact .inr ⟨all x low lower, Char.utf8Size_eq_one_iff.mpr (UInt32.le_iff_toNat_le.mpr (Nat.le_of_lt_succ low))⟩
    · rw [suffixLetter, if_neg kelvin, toLower_of_le beyond] at lower
      have letter : x.isAlpha = true := Bool.or_eq_true_iff.mpr (.inr lower)
      cases (isAlpha_of_beyond beyond).symm.trans letter

/-- What a suffix takes are letters, and with a Kelvin sign among them it takes more bytes than its name has. -/
theorem suffix_takes {name : Text} {scale : Float} (member : (name, scale) ∈ suffixes) (starts : startsWithSuffix name t = true) :
    (∀ x ∈ t.take name.length, x = '\u212a' ∨ x.isAlpha = true ∧ x.utf8Size = 1) ∧
      (byteSize (t.take name.length) = byteSize name ↔ ∀ x ∈ t.take name.length, x.utf8Size = 1) := by
  simp only [startsWithSuffix, Bool.and_eq_true, decide_eq_true_eq, beq_iff_eq] at starts
  obtain ⟨long, letters⟩ := starts
  have lower : ∀ entry ∈ suffixes, byteSize entry.1 = entry.1.length ∧ entry.1.all Char.isLower = true := by decide
  obtain ⟨size, lower⟩ := lower _ member
  refine ⟨fun x inside => cases_suffixLetter (List.all_eq_true.mp lower _ ?_), ?_⟩
  · have image : suffixLetter x ∈ (t.take name.length).map suffixLetter := List.mem_map_of_mem inside
    exact letters ▸ image
  · have length : (t.take name.length).length = name.length := List.length_take_of_le long
    rw [← byteSize_eq_length_iff, length, size]

theorem suffix_letters {scale : Float} (read : suffix t = .found scale rest) :
    rest.dropWhile Char.isAlpha = t.dropWhile Char.isAlpha := by
  unfold suffix at read
  split at read
  · cases read
  · next name scale' found =>
    have starts : startsWithSuffix name t = true := by simpa using List.find?_some found
    obtain ⟨takes, same⟩ := suffix_takes (List.mem_of_find?_eq_some found) starts
    split at read
    · next bytes =>
      simp only [Scan.found.injEq] at read
      obtain ⟨-, rfl⟩ := read
      have alphabetic : ∀ x ∈ t.take name.length, x.isAlpha = true := by
        intro x inside
        rcases takes x inside with rfl | letter
        · exact absurd (same.mp bytes _ inside) (by decide)
        · exact letter.1
      conv => rhs; rw [← List.take_append_drop name.length t]
      rw [List.dropWhile_append_of_pos alphabetic]
    · cases read

theorem mem_takeWhile_of_take {p : Char → Bool} {n : Nat} {x : Char} (all : ∀ x ∈ t.take n, p x = true) (inside : x ∈ t.take n) :
    x ∈ t.takeWhile p := by
  rw [← List.take_append_drop n t, List.takeWhile_append_of_pos all]
  exact List.mem_append_left _ inside

/-- Where a suffix is torn, a Kelvin sign stands among the letters. -/
theorem suffix_torn_letters (torn : suffix t = .torn) : '\u212a' ∈ t.takeWhile isLetterForm := by
  unfold suffix at torn
  split at torn
  · cases torn
  · next name scale found =>
    have starts : startsWithSuffix name t = true := by simpa using List.find?_some found
    obtain ⟨takes, same⟩ := suffix_takes (List.mem_of_find?_eq_some found) starts
    split at torn
    · cases torn
    · next bytes =>
      have forms : ∀ x ∈ t.take name.length, isLetterForm x = true := by
        intro x inside
        rcases takes x inside with rfl | letter
        · decide
        · rw [isLetterForm, letter.1, Bool.true_or]
      refine mem_takeWhile_of_take forms ?_
      by_contra absent
      refine bytes (same.mpr fun x inside => ?_)
      rcases takes x inside with rfl | letter
      · exact absurd inside absent
      · exact letter.2

theorem rest_of_literal {v : Float} (read : literal false t = .found v rest) :
    startsMantissa t = true ∧ rest = (afterExponent false t).dropWhile Char.isAlpha := by
  cases starts : startsMantissa t with
  | false =>
    rw [literal_of_silent starts] at read
    cases read
  | true =>
    obtain ⟨mantissa, eq⟩ := literal_of_starts starts
    rw [eq] at read
    refine ⟨rfl, ?_⟩
    split at read
    · cases read
    · simp only [Scan.found.injEq] at read
      exact read.2.symm
    · next found =>
      simp only [Scan.found.injEq] at read
      rw [← read.2, suffix_letters found]

/-- Without a Kelvin sign among its letters a literal can be read. -/
theorem exists_literal (starts : startsMantissa t = true) (plain : '\u212a' ∉ (afterExponent false t).takeWhile isLetterForm) :
    ∃ v, literal false t = .found v ((afterExponent false t).dropWhile Char.isAlpha) := by
  obtain ⟨mantissa, eq⟩ := literal_of_starts starts
  rw [eq]
  split
  · next torn => exact absurd (suffix_torn_letters torn) plain
  · exact ⟨_, rfl⟩
  · next found => exact ⟨_, by rw [suffix_letters found]⟩

theorem trim_eq {w : Text} (solid : ∀ x ∈ w, isWhiteSpace x = false) : trim w = w := by
  have keeps {u : Text} (solid : ∀ x ∈ u, isWhiteSpace x = false) : u.dropWhile isWhiteSpace = u := by
    cases u with
    | nil => rfl
    | cons x u => exact List.dropWhile_cons_of_neg (by simp [solid x List.mem_cons_self])
  rw [trim, keeps solid, dropEndWhile, keeps fun x member => solid x (List.mem_reverse.mp member), List.reverse_reverse]

end Number

namespace Spice
open Number Decimal Pattern Lexer

variable {w : Text}

theorem isNumeralPart_solid {x : Char} (part : isNumeralPart x = true) : isWhiteSpace x = false ∧ isLookalike x = false := by
  have low : x.toNat < 128 := by
    by_contra beyond
    have beyond := Nat.le_of_not_lt beyond
    rw [isNumeralPart, isDigit_of_beyond beyond, Bool.false_or, List.contains_iff_mem] at part
    have ascii : (chars "+-.eE").all (decide <| ·.toNat < 128) = true := by decide
    exact absurd (of_decide_eq_true (List.all_eq_true.mp ascii x part)) (Nat.not_lt_of_le beyond)
  have all : ∀ c : Char, c.toNat < 128 → isNumeralPart c = true → isWhiteSpace c = false ∧ isLookalike c = false :=
    forall_ascii (by decide +kernel)
  exact all x low part

theorem isLetterForm_solid {x : Char} (letter : isLetterForm x = true) :
    isWhiteSpace x = false ∧ isLookalike x = !x.isAlpha := by
  rcases Nat.lt_or_ge x.toNat 128 with low | beyond
  · have all : ∀ c : Char, c.toNat < 128 → isLetterForm c = true → isWhiteSpace c = false ∧ isLookalike c = !c.isAlpha :=
      forall_ascii (by decide +kernel)
    exact all x low letter
  · have alone : x = '\u212a' ∨ x = '\u017f' := by simpa [isLetterForm, isLookalike, isAlpha_of_beyond beyond] using letter
    rcases alone with rfl | rfl <;> decide

theorem Numeral.solid (numeral : Numeral w) : ∀ x ∈ w, isWhiteSpace x = false := by
  intro x member
  obtain ⟨front, split, parts⟩ := numeral.front
  rw [split] at member
  rcases List.mem_append.mp member with here | there
  · exact (isNumeralPart_solid (parts x here)).1
  · exact (isLetterForm_solid (numeral.letters x there)).1

theorem Numeral.trim_eq (numeral : Numeral w) : trim w = w := Number.trim_eq numeral.solid

theorem Numeral.any_isLookalike (numeral : Numeral w) :
    w.any isLookalike = !(afterExponent false (splitSign w).2).all Char.isAlpha := by
  obtain ⟨front, split, parts⟩ := numeral.front
  have ordinary : front.any isLookalike = false :=
    List.any_eq_false.mpr fun x member => by simp [(isNumeralPart_solid (parts x member)).2]
  conv => lhs; rw [split]
  rw [List.any_append, ordinary, Bool.false_or, List.not_all_eq_any_not, Bool.eq_iff_iff, List.any_eq_true, List.any_eq_true]
  refine exists_congr fun x => and_congr_right fun member => ?_
  rw [(isLetterForm_solid (numeral.letters x member)).2]

theorem Numeral.number (numeral : Numeral w) (plain : w.any isLookalike = false) : ∃ v, Number.number w = .found v [] := by
  have alphabetic := numeral.any_isLookalike
  rw [plain, eq_comm, Bool.not_eq_false'] at alphabetic
  have untorn : '\u212a' ∉ (afterExponent false (splitSign w).2).takeWhile isLetterForm := by
    intro member
    have inside := (List.takeWhile_prefix isLetterForm).subset member
    exact absurd (List.all_eq_true.mp alphabetic _ inside) (by decide)
  obtain ⟨v, read⟩ := exists_literal numeral.starts untorn
  rw [List.dropWhile_eq_nil_iff.mpr (List.all_eq_true.mp alphabetic)] at read
  refine ⟨(if (splitSign w).1 then -1 else 1) * v, ?_⟩
  unfold Number.number
  dsimp only
  rw [numeral.trim_eq, read]

theorem Numeral.not_number (numeral : Numeral w) (lookalike : w.any isLookalike = true) :
    Number.number w = .absent ∨ Number.number w = .torn ∧ '\u212a' ∈ w := by
  have mixed := numeral.any_isLookalike
  rw [lookalike, eq_comm, Bool.not_eq_true'] at mixed
  unfold Number.number
  dsimp only
  rw [numeral.trim_eq]
  split
  · next v read =>
    have all := List.all_eq_true.mpr (List.dropWhile_eq_nil_iff.mp (rest_of_literal read).2.symm)
    rw [mixed] at all
    cases all
  · next torn => exact .inr ⟨rfl, (splitSign_suffix w).subset (literal_torn torn)⟩
  · exact .inl rfl

/-! ### The extent of matches and of literals -/

theorem afterExponent_suffix {t : Text} (starts : startsMantissa t = true) : afterExponent false t <:+ t := by
  have whole : afterMantissa t <:+ t := reads_mantissa.suffix (if_pos starts)
  have power : afterPower (afterMantissa t) <:+ afterMantissa t := reads_power.suffix rfl
  exact power.trans whole

theorem dropWhile_of_plain {u : Text} (plain : ∀ x ∈ u.takeWhile isLetterForm, isLookalike x = false) :
    u.dropWhile isLetterForm = u.dropWhile Char.isAlpha := by
  induction u with
  | nil => rfl
  | cons x u ih =>
    cases letter : isLetterForm x with
    | false =>
      have other : x.isAlpha = false := (Bool.or_eq_false_iff.mp letter).1
      rw [List.dropWhile_cons_of_neg (by simp [letter]), List.dropWhile_cons_of_neg (by simp [other])]
    | true =>
      rw [List.takeWhile_cons_of_pos letter, List.forall_mem_cons] at plain
      have own : x.isAlpha = true := by rwa [isLetterForm, plain.1, Bool.or_false] at letter
      rw [List.dropWhile_cons_of_pos letter, List.dropWhile_cons_of_pos own, ih plain.2]

theorem dropWhile_of_follows {u : Text} (plain : (u.dropWhile Char.isAlpha).head?.any isLookalike = false) :
    u.dropWhile isLetterForm = u.dropWhile Char.isAlpha := by
  induction u with
  | nil => rfl
  | cons x u ih =>
    cases own : x.isAlpha with
    | true =>
      have letter : isLetterForm x = true := by rw [isLetterForm, own, Bool.true_or]
      rw [List.dropWhile_cons_of_pos own] at plain
      rw [List.dropWhile_cons_of_pos letter, List.dropWhile_cons_of_pos own, ih plain]
    | false =>
      rw [List.dropWhile_cons_of_neg (by simp [own])] at plain
      have other : isLetterForm x = false := Bool.or_eq_false_iff.mpr ⟨own, plain⟩
      rw [List.dropWhile_cons_of_neg (by simp [other]), List.dropWhile_cons_of_neg (by simp [own])]

theorem take_drop_of_split {front back : Text} (split : front ++ back = w) :
    w.take (w.length - back.length) = front ∧ w.drop (w.length - back.length) = back := by
  subst split
  rw [List.length_append, Nat.add_sub_cancel]
  exact ⟨List.take_left, List.drop_left⟩

/-- Where the pattern of numbers ends without a character beyond ASCII, a literal ends. -/
theorem literal_of_findEnd? {n : Nat} (found : number.ignoringCase.atStart.findEnd? w = some n)
    (plain : (w.take n).any isLookalike = false) : ∃ v, literal false (splitSign w).2 = .found v (w.drop n) := by
  rw [reads_number.findEnd?_eq] at found
  obtain ⟨rest, read, rfl⟩ := Option.map_eq_some_iff.mp found
  split at read
  · next starts =>
    obtain rfl := Option.some.inj read
    obtain ⟨front, text⟩ := (afterExponent_suffix starts).trans (splitSign_suffix w)
    rw [← List.takeWhile_append_dropWhile (p := isLetterForm) (l := afterExponent false (splitSign w).2), ← List.append_assoc] at text
    obtain ⟨taken, left⟩ := take_drop_of_split text
    have letters : ∀ x ∈ (afterExponent false (splitSign w).2).takeWhile isLetterForm, isLookalike x = false := by
      intro x member
      rw [taken, List.any_append, Bool.or_eq_false_iff] at plain
      exact Bool.eq_false_iff.mpr (List.any_eq_false.mp plain.2 x member)
    obtain ⟨v, read⟩ := exists_literal starts fun kelvin => absurd (letters _ kelvin) (by decide)
    exact ⟨v, by rw [read, left, dropWhile_of_plain letters]⟩
  · cases read

/-- Where a literal ends and no such character follows, the pattern of numbers ends. -/
theorem findEnd?_of_literal {n : Nat} {v : Float} (read : literal false (splitSign w).2 = .found v (w.drop n))
    (inside : n ≤ w.length) (plain : (w.drop n).head?.any isLookalike = false) :
    number.ignoringCase.atStart.findEnd? w = some n := by
  obtain ⟨starts, rest⟩ := rest_of_literal read
  rw [rest] at plain
  have same : (afterExponent false (splitSign w).2).dropWhile isLetterForm = w.drop n := by
    rw [dropWhile_of_follows plain, rest]
  rw [reads_number.findEnd?_eq, if_pos starts, same, Option.map_some, List.length_drop, Nat.sub_sub_self inside]

/-! ### The values of tokens -/

variable {o : Options} {file : Option Text} {keep : Bool} {t : Text} {token : Token Kind}

theorem numeral_of_value (member : .token token ∈ (lexer o file keep).items { rest := t }) (kind : token.kind = .value) :
    Numeral token.lexeme := by
  obtain ⟨c, e, reached, spans⟩ := lexeme_reaches member (by rw [kind]; rfl)
  obtain ⟨w, spans', numeral⟩ := number_reaches reached
  rw [spans.unique spans']
  exact numeral

theorem numeral_of_percent (member : .token token ∈ (lexer o file keep).items { rest := t }) (kind : token.kind = .percent) :
    ∃ w, token.lexeme = w ++ ['%'] ∧ Numeral w := by
  obtain ⟨c, e, ⟨d, reached, sign⟩, spans⟩ := lexeme_reaches member (by rw [kind]; rfl)
  obtain ⟨w, spans', numeral⟩ := number_reaches reached
  exact ⟨w, spans.unique (spans'.trans (caseless_reaches (by decide) sign)), numeral⟩

theorem beforeClosing?_concat (w : Text) (x : Char) : beforeClosing? [x] (w ++ [x]) = some w := by
  simp [beforeClosing?, afterOpening?]

theorem literalValue_numeral (token : Token Kind) {w : Text} (numeral : Numeral w) :
    (w.any isLookalike = false → ∃ v, literalValue token w = pure (.ok v)) ∧
    (w.any isLookalike = true → literalValue token w = pure (.error (.notAValue token.kind token.lexeme token.line)) ∨
      '\u212a' ∈ w ∧ literalValue token w = throw .violated) := by
  constructor
  · intro plain
    obtain ⟨v, read⟩ := numeral.number plain
    exact ⟨v, by rw [literalValue, read]⟩
  · intro lookalike
    rcases numeral.not_number lookalike with absent | ⟨torn, kelvin⟩
    · exact .inl (by rw [literalValue, absent])
    · exact .inr ⟨kelvin, by rw [literalValue, torn]⟩

/-- The value of a token, unless a character of it is a letter to the pattern of numbers alone. -/
theorem tokenValue_of_number (scope : Scope) (member : .token token ∈ (lexer o file keep).items { rest := t })
    (kind : token.kind = .value ∨ token.kind = .percent) :
    (token.lexeme.any isLookalike = false → ∃ v, tokenValue scope token = pure (.ok v)) ∧
    (token.lexeme.any isLookalike = true →
      tokenValue scope token = pure (.error (.notAValue token.kind token.lexeme token.line)) ∨
      '\u212a' ∈ token.lexeme ∧ tokenValue scope token = throw .violated) := by
  rcases kind with value | percent
  · have same : tokenValue scope token = literalValue token token.lexeme := by rw [tokenValue, value]
    rw [same]
    exact literalValue_numeral token (numeral_of_value member value)
  · obtain ⟨w, lexeme, numeral⟩ := numeral_of_percent member percent
    have same : tokenValue scope token = do return (← literalValue token w).map (· / 100) := by
      rw [tokenValue, percent]
      dsimp only
      rw [lexeme, beforeClosing?_concat]
    have lookalikes : token.lexeme.any isLookalike = w.any isLookalike := by
      rw [lexeme, List.any_append]
      exact Bool.or_false _
    obtain ⟨plain, odd⟩ := literalValue_numeral token numeral
    rw [same, lookalikes]
    refine ⟨fun even => ?_, fun lookalike => ?_⟩
    · obtain ⟨v, read⟩ := plain even
      exact ⟨v / 100, by rw [read]; rfl⟩
    · rcases odd lookalike with absent | ⟨kelvin, torn⟩
      · exact .inl (by rw [absent]; rfl)
      · exact .inr ⟨by rw [lexeme]; exact List.mem_append_left _ kelvin, by rw [torn]; rfl⟩

/-- The pattern of numbers and the parser of literals, for all options and texts. Where the match of the one
ends without a character that is a letter to it alone, the other ends, and the other way round if no such
character follows. So every token of a number or a percentage has a value, unless one of these characters
stands in it; then it has none. -/
theorem numbers_have_values (o : Options) (file : Option Text) (keep : Bool) (t : Text) :
    (∀ (w : Text) (n : Nat), number.ignoringCase.atStart.findEnd? w = some n → (w.take n).any isLookalike = false →
      ∃ v, literal false (splitSign w).2 = .found v (w.drop n)) ∧
    (∀ (w : Text) (n : Nat) (v : Float), literal false (splitSign w).2 = .found v (w.drop n) → n ≤ w.length →
      (w.drop n).head?.any isLookalike = false → number.ignoringCase.atStart.findEnd? w = some n) ∧
    ∀ token, .token token ∈ (lexer o file keep).items { rest := t } → token.kind = .value ∨ token.kind = .percent →
      ∀ scope : Scope,
        (token.lexeme.any isLookalike = false → ∃ v, tokenValue scope token = pure (.ok v)) ∧
        (token.lexeme.any isLookalike = true →
          tokenValue scope token = pure (.error (.notAValue token.kind token.lexeme token.line)) ∨
          '\u212a' ∈ token.lexeme ∧ tokenValue scope token = throw .violated) := by
  refine ⟨fun w n => literal_of_findEnd?, fun w n v => findEnd?_of_literal, ?_⟩
  intro token member kind scope
  exact tokenValue_of_number scope member kind

/-- A percentage with an exponent, a suffix and a unit. -/
theorem numbers_have_values_percent :
    let text := chars "-1.e3kOhm%"
    (∃ v, literal false (splitSign text).2 = .found v ['%'] ∧ number.ignoringCase.atStart.findEnd? text = some 9) ∧
    ∃ token, .token token ∈ (lexer {} none false).items { rest := text } ∧ token.kind = .percent ∧ token.lexeme = text ∧
      ∀ scope : Scope, ∃ v, tokenValue scope token = pure (.ok v) := by
  intro text
  obtain ⟨literals, matches', values⟩ := numbers_have_values {} none false text
  obtain ⟨v, read⟩ := literals text 9 (by decide +kernel) (by decide +kernel)
  obtain ⟨token, member, own⟩ := exists_token_of_any (lexer {} none false) { rest := text }
    (fun token => token.kind == .percent && token.lexeme == text) (by decide +kernel)
  simp only [Bool.and_eq_true, beq_iff_eq] at own
  refine ⟨⟨v, read, matches' text 9 v read (by decide) (by decide)⟩, token, member, own.1, own.2, fun scope => ?_⟩
  exact (values token member (.inr own.1) scope).1 (by rw [own.2]; decide +kernel)

/-- A long s behind a digit belongs to the token of the number, which is no value then. -/
theorem long_s_is_no_unit : ∃ token, .token token ∈ (lexer {} none false).items { rest := ['1', '\u017f'] } ∧
    token.kind = .value ∧ ∀ scope : Scope, tokenValue scope token = pure (.error (.notAValue .value ['1', '\u017f'] 1)) := by
  obtain ⟨token, member, own⟩ := exists_token_of_any (lexer {} none false) { rest := ['1', '\u017f'] }
    (fun token => token.kind == .value && token.lexeme == ['1', '\u017f'] && token.line == 1) (by decide +kernel)
  simp only [Bool.and_eq_true, beq_iff_eq] at own
  obtain ⟨⟨kind, lexeme⟩, line⟩ := own
  refine ⟨token, member, kind, fun scope => ?_⟩
  rcases (tokenValue_of_number scope member (.inl kind)).2 (by rw [lexeme]; decide +kernel) with absent | ⟨kelvin, _⟩
  · rw [absent, kind, lexeme, line]
  · rw [lexeme] at kelvin
    exact absurd kelvin (by decide)

end Spice

end Netlist
