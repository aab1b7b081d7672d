import Mathlib.Data.List.DropRight
import Mathlib.Data.List.Induction
import Netlist.Proofs.Expression.Grammar

/-!
How far the readers of tokens go: what they leave is a part of the text they were given, and all
of them but operators with an empty name take at least one character. A number is torn only by a
Kelvin sign.
-/
namespace Netlist

def Follows (rest t : Text) : Prop := rest <:+ t ∧ rest.length < t.length

theorem Follows.of_suffix {rest t u : Text} (follows : Follows rest t) (suffix : t <:+ u) : Follows rest u :=
  ⟨follows.1.trans suffix, Nat.lt_of_lt_of_le follows.2 suffix.length_le⟩

theorem Follows.after {rest t u : Text} (suffix : rest <:+ t) (follows : Follows t u) : Follows rest u :=
  ⟨suffix.trans follows.1, Nat.lt_of_le_of_lt suffix.length_le follows.2⟩

theorem follows_cons {rest : Text} {c : Char} {t : Text} (suffix : rest <:+ t) : Follows rest (c :: t) :=
  ⟨suffix.trans (List.suffix_cons c t), Nat.lt_succ_of_le suffix.length_le⟩

def PartOf (t text : Text) : Prop := t <:+: text ∧ t.length < text.length

theorem Follows.partOf {a rest t : Text} (follows : Follows rest t) (part : a <:+: rest) : PartOf a t :=
  ⟨part.trans follows.1.isInfix, Nat.lt_of_le_of_lt part.length_le follows.2⟩

theorem skip_suffix (t : Text) : skip t <:+ t := List.dropWhile_suffix _

theorem skip_eq_nil_of_suffix {t u : Text} (suffix : u <:+ t) (blank : skip t = []) : skip u = [] := by
  unfold skip at blank ⊢
  rw [List.dropWhile_eq_nil_iff] at blank ⊢
  exact fun c inside => blank c (suffix.subset inside)

theorem suffix_of_skip_eq {t rest : Text} {c : Char} (eq : skip t = c :: rest) : Follows rest t :=
  (follows_cons List.suffix_rfl).of_suffix (eq ▸ skip_suffix t)

theorem dropWhile_follows {p : Char → Bool} {t : Text} (starts : t.head?.any p = true) :
    Follows (t.dropWhile p) t := by
  cases t with
  | nil => simp at starts
  | cons c rest =>
    have holds : p c = true := by simpa using starts
    rw [List.dropWhile_cons_of_pos holds]
    exact follows_cons (List.dropWhile_suffix _)

theorem utf8Size_toLower (c : Char) : c.toLower.utf8Size = c.utf8Size := by
  rcases Nat.lt_or_ge c.toNat 128 with ascii | other
  · have all : ∀ c : Char, c.toNat < 128 → c.toLower.utf8Size = c.utf8Size := forall_ascii (by decide +kernel)
    exact all c ascii
  · rw [toLower_of_le other]

@[simp] theorem byteSize_asciiLower (t : Text) : byteSize (asciiLower t) = byteSize t := by
  induction t with
  | nil => rfl
  | cons c t ih =>
    unfold asciiLower at *
    rw [List.map_cons, byteSize_cons, byteSize_cons, utf8Size_toLower, ih]

theorem afterName?_eq_some {name t rest : Text} :
    afterName? name t = some rest ↔ ∃ p, t = p ++ rest ∧ asciiLower p = asciiLower name := by
  constructor
  · intro read
    induction name generalizing t with
    | nil =>
      cases read
      exact ⟨[], rfl, rfl⟩
    | cons n name ih =>
      cases t with
      | nil => cases read
      | cons c t =>
        unfold afterName? at read
        split at read
        · next same =>
          obtain ⟨p, rfl, lower⟩ := ih read
          exact ⟨c :: p, rfl, List.cons_eq_cons.mpr ⟨same.symm, lower⟩⟩
        · cases read
  · rintro ⟨p, rfl, lower⟩
    induction p generalizing name with
    | nil =>
      rw [List.map_eq_nil_iff.mp lower.symm]
      rfl
    | cons c p ih =>
      obtain ⟨n, name, rfl, first, others⟩ := List.map_eq_cons_iff.mp lower.symm
      rw [List.cons_append, afterName?, if_pos first]
      exact ih others.symm

theorem afterName?_suffix {name t rest : Text} (read : afterName? name t = some rest) : rest <:+ t := by
  obtain ⟨p, rfl, -⟩ := afterName?_eq_some.mp read
  exact List.suffix_append p rest

/-- Of two beginnings of a text, the one with fewer bytes is a beginning of the other. -/
theorem prefix_of_byteSize_le {p q rest rest' : Text} (same : p ++ rest = q ++ rest') (le : byteSize p ≤ byteSize q) :
    p <+: q := by
  rcases List.prefix_or_prefix_of_prefix (List.prefix_append p rest) (same ▸ List.prefix_append q rest') with shorter | ⟨more, rfl⟩
  · exact shorter
  · cases more with
    | nil => simp
    | cons c more =>
      have positive := byteSize_pos (List.cons_ne_nil c more)
      rw [byteSize_append] at le
      omega

def betterOperator (t : Text) (best : Option (Function × Text)) (f : Function) : Option (Function × Text) :=
  match afterOperator? f t with
  | none => best
  | some rest =>
    if best.all fun (g, _) => decide (byteSize g.name < byteSize f.name) then some (f, rest) else best

def IsLongest (operators : List Function) (t : Text) (best : Function × Text) : Prop :=
  best.1 ∈ operators ∧ afterOperator? best.1 t = some best.2 ∧
    ∀ g ∈ operators, (afterOperator? g t).isSome → byteSize g.name ≤ byteSize best.1.name

private theorem foldl_betterOperator (t : Text) (operators : List Function) :
    match operators.foldl (betterOperator t) none with
    | some best => IsLongest operators t best
    | none => ∀ g ∈ operators, afterOperator? g t = none := by
  induction operators using List.reverseRecOn with
  | nil => simp
  | append_singleton fs f ih =>
    rw [List.foldl_append, List.foldl_cons, List.foldl_nil]
    generalize fs.foldl (betterOperator t) none = best at ih ⊢
    rcases after : afterOperator? f t with _ | rest
    · -- The operator does not match and changes nothing.
      simp only [betterOperator, after]
      cases best with
      | none => simpa [or_imp, forall_and, after] using ih
      | some b =>
        obtain ⟨member, matched, longest⟩ := ih
        refine ⟨by simp [member], matched, ?_⟩
        simpa [or_imp, forall_and, after] using longest
    · cases best with
      | none =>
        have others : ∀ g ∈ fs, afterOperator? g t = none := ih
        simp only [betterOperator, after, Option.all_none, if_true]
        refine ⟨by simp, after, fun g member read => ?_⟩
        rcases List.mem_append.mp member with earlier | last
        · simp [others g earlier] at read
        · rw [List.mem_singleton.mp last]
      | some b =>
        obtain ⟨member, matched, longest⟩ := ih
        by_cases longer : byteSize b.1.name < byteSize f.name
        · simp only [betterOperator, after, Option.all_some, longer, decide_true, if_true]
          refine ⟨by simp, after, fun g found read => ?_⟩
          rcases List.mem_append.mp found with earlier | last
          · exact (longest g earlier read).trans (Nat.le_of_lt longer)
          · rw [List.mem_singleton.mp last]
        · simp only [betterOperator, after, Option.all_some, longer, decide_false, Bool.false_eq_true, if_false]
          refine ⟨by simp [member], matched, fun g found read => ?_⟩
          rcases List.mem_append.mp found with earlier | last
          · exact longest g earlier read
          · rw [List.mem_singleton.mp last]
            exact Nat.not_lt.mp longer

theorem isLongest_of_longestOperator? {operators : List Function} {t : Text} {best : Function × Text}
    (read : longestOperator? operators t = some best) : IsLongest operators t best := by
  have fold := foldl_betterOperator t operators
  rw [show operators.foldl (betterOperator t) none = some best from read] at fold
  exact fold

theorem afterOperator?_eq_none {operators : List Function} {t : Text} (read : longestOperator? operators t = none)
    {g : Function} (member : g ∈ operators) : afterOperator? g t = none := by
  have fold := foldl_betterOperator t operators
  rw [show operators.foldl (betterOperator t) none = none from read] at fold
  exact fold g member

theorem longestOperator?_eq_none {operators : List Function} {t : Text} (off : ∀ g ∈ operators, afterOperator? g t = none) :
    longestOperator? operators t = none := by
  cases read : longestOperator? operators t with
  | none => rfl
  | some best =>
    obtain ⟨member, matched, -⟩ := isLongest_of_longestOperator? read
    rw [off _ member] at matched
    cases matched

theorem longestOperator?_suffix {operators : List Function} {t rest : Text} {f : Function}
    (read : longestOperator? operators t = some (f, rest)) : rest <:+ t :=
  afterName?_suffix (Option.filter_eq_some_iff.mp (isLongest_of_longestOperator? read).2.1).1

theorem BinaryOperator.read?_follows {t rest : Text} {op : BinaryOperator} (read : BinaryOperator.read? t = some (op, rest)) :
    Follows rest t := by
  obtain ⟨⟨spelling, found⟩, member, eq⟩ := List.exists_of_findSome?_eq_some read
  obtain ⟨after, split, same⟩ := Option.map_eq_some_iff.mp eq
  cases same
  rw [eq_append_of_afterOpening? split]
  have nonempty : spelling ≠ [] := by
    simp only [spellings, List.mem_cons, Prod.mk.injEq, List.not_mem_nil, or_false] at member
    rcases member with h | h | h | h | h | h | h | h | h | h | h | h | h | h | h <;> simp [h.1, chars]
  obtain ⟨c, more, rfl⟩ := List.exists_cons_of_ne_nil nonempty
  exact follows_cons (List.suffix_append more rest)

theorem captureArguments_follows {depth : Nat} {quoted : Bool} {current : Text} {done arguments : List Text}
    {t rest : Text} (read : captureArguments depth quoted current done t = some (arguments, rest)) :
    Follows rest t := by
  induction t generalizing depth quoted current done with
  | nil => simp [captureArguments] at read
  | cons c t ih =>
    have deeper {depth quoted current done}
        (more : captureArguments depth quoted current done t = some (arguments, rest)) : Follows rest (c :: t) :=
      (ih more).of_suffix (List.suffix_cons c t)
    simp only [captureArguments] at read
    split at read
    · exact deeper read
    · split at read
      · exact deeper read
      · split at read
        · exact deeper read
        · split at read
          · split at read
            · simp only [Option.some.injEq, Prod.mk.injEq] at read
              exact read.2 ▸ follows_cons List.suffix_rfl
            · exact deeper read
          · split at read <;> exact deeper read

theorem trim_inside (t : Text) : trim t <:+: t := by
  have back := List.dropWhile_suffix (l := (t.dropWhile isWhiteSpace).reverse) isWhiteSpace
  have front := List.dropWhile_suffix (l := t) isWhiteSpace
  rw [← List.reverse_prefix, List.reverse_reverse] at back
  exact back.isInfix.trans front.isInfix

/-- The texts of arguments are parts of the text behind the opening parenthesis. -/
theorem captureArguments_inside {depth : Nat} {inQuotes : Bool} {current t rest : Text} {done arguments : List Text}
    (read : captureArguments depth inQuotes current done t = some (arguments, rest)) :
    ∀ a ∈ arguments, a ∈ done ∨ a <:+: current.reverse ++ t := by
  induction t generalizing depth inQuotes current done with
  | nil => cases read
  | cons c t ih =>
    have longer {depth : Nat} {inQuotes : Bool}
        (read : captureArguments depth inQuotes (c :: current) done t = some (arguments, rest)) :
        ∀ a ∈ arguments, a ∈ done ∨ a <:+: current.reverse ++ c :: t := by
      simpa using ih read
    have trimmed : trim current.reverse <:+: current.reverse ++ c :: t :=
      (trim_inside _).trans (List.prefix_append _ _).isInfix
    unfold captureArguments at read
    split_ifs at read
    · exact longer read
    · exact longer read
    · exact longer read
    · simp only [Option.some.injEq, Prod.mk.injEq] at read
      obtain ⟨rfl, -⟩ := read
      intro a member
      split at member
      · cases member
      · rcases List.mem_cons.mp (List.mem_reverse.mp member) with rfl | member
        · exact .inr trimmed
        · exact .inl member
    · exact longer read
    · intro a member
      rcases ih read a member with before | part
      · rcases List.mem_cons.mp before with rfl | member
        · exact .inr trimmed
        · exact .inl member
      · have behind : t <:+ current.reverse ++ c :: t := ⟨current.reverse ++ [c], by simp⟩
        exact .inr (part.trans behind.isInfix)
    · exact longer read

theorem isIdentifierPart_of_isIdentifierStart {c : Char} (start : isIdentifierStart c = true) :
    isIdentifierPart c = true := by
  simp only [isIdentifierStart, Bool.or_eq_true] at start
  rcases start with alpha | underscore
  · simp [isIdentifierPart, Char.isAlphanum, alpha]
  · simp [isIdentifierPart, underscore]

theorem identifier?_follows {t name rest : Text} (read : identifier? t = some (name, rest)) : Follows rest t := by
  unfold identifier? at read
  split at read
  · next starts =>
    simp only [Option.some.injEq, Prod.mk.injEq] at read
    have part : (skip t).head?.any isIdentifierPart = true := by
      cases eq : (skip t).head? with
      | none => simp [eq] at starts
      | some c => exact isIdentifierPart_of_isIdentifierStart (by simpa [eq] using starts)
    exact read.2 ▸ (dropWhile_follows part).of_suffix (skip_suffix t)
  · cases read

theorem callHead?_eq_some {t name rest : Text} :
    callHead? t = some (name, rest) ↔ ∃ after, identifier? t = some (name, after) ∧ skip after = '(' :: rest := by
  unfold callHead?
  constructor
  · intro head
    split at head
    · next name' after found =>
      split at head
      · next opened =>
        cases head
        exact ⟨after, found, opened⟩
      · cases head
    · cases head
  · rintro ⟨after, found, opened⟩
    simp [found, opened]

theorem callHead?_follows {t name rest : Text} (read : callHead? t = some (name, rest)) : Follows rest t := by
  obtain ⟨after, found, opened⟩ := callHead?_eq_some.mp read
  exact (suffix_of_skip_eq opened).of_suffix (identifier?_follows found).1

theorem sign?_follows {t rest : Text} {s : UnaryOperator} (read : sign? t = some (s, rest)) : Follows rest t := by
  unfold sign? at read
  split at read
  · next eq => simp only [Option.some.injEq, Prod.mk.injEq] at read; exact read.2 ▸ suffix_of_skip_eq eq
  · next eq => simp only [Option.some.injEq, Prod.mk.injEq] at read; exact read.2 ▸ suffix_of_skip_eq eq
  · next eq => simp only [Option.some.injEq, Prod.mk.injEq] at read; exact read.2 ▸ suffix_of_skip_eq eq
  · cases read

theorem reference?_follows {t rest : Text} {arguments : List Text} (read : reference? t = some (arguments, rest)) :
    Follows rest t := by
  unfold reference? at read
  split at read
  · next more eq =>
    have behind := suffix_of_skip_eq eq
    dsimp only at read
    split at read
    · cases read
    · have name : more.dropWhile isIdentifierPart <:+ more := List.dropWhile_suffix _
      split at read
      · next inner opened =>
        split at read
        · next closed =>
          simp only [Option.some.injEq, Prod.mk.injEq] at read
          have property : inner.dropWhile (· != ']') <:+ inner := List.dropWhile_suffix _
          rw [closed] at property
          rw [opened] at name
          have suffix := ((List.suffix_cons _ _).trans property).trans ((List.suffix_cons _ _).trans name)
          exact read.2 ▸ Follows.after suffix behind
        · cases read
      · simp only [Option.some.injEq, Prod.mk.injEq] at read
        exact read.2 ▸ Follows.after name behind
  · cases read

theorem connective?_suffix {w : Vocabulary} {t rest : Text} {op : Connective}
    (read : w.connective? t = some (op, rest)) : rest <:+ t := by
  unfold Vocabulary.connective? at read
  split at read
  · next longest =>
    cases read
    exact (longestOperator?_suffix longest).trans (skip_suffix t)
  · obtain ⟨found, builtin, same⟩ := Option.map_eq_some_iff.mp read
    cases same
    exact (BinaryOperator.read?_follows builtin).1.trans (skip_suffix t)

namespace Number

theorem fraction_suffix {comma : Bool} {t digits rest : Text} (read : fraction comma t = some (digits, rest)) :
    rest <:+ t ∧ (digits ≠ [] → rest.length < t.length) := by
  unfold fraction at read
  split at read
  · next more =>
    simp only [Option.some.injEq, Prod.mk.injEq] at read
    have behind : Follows (more.dropWhile Char.isDigit) ('.' :: more) := follows_cons (List.dropWhile_suffix _)
    exact read.2 ▸ ⟨behind.1, fun _ => behind.2⟩
  · next more =>
    dsimp only at read
    split at read
    · simp only [Option.some.injEq, Prod.mk.injEq] at read
      have behind : Follows (more.dropWhile Char.isDigit) (',' :: more) := follows_cons (List.dropWhile_suffix _)
      exact read.2 ▸ ⟨behind.1, fun _ => behind.2⟩
    · cases read
  · cases read

theorem splitSign_suffix (t : Text) : (Decimal.splitSign t).2 <:+ t := by
  unfold Decimal.splitSign
  split
  · exact List.suffix_cons _ _
  · exact List.suffix_cons _ _
  · exact List.suffix_rfl

theorem exponent_suffix {t rest power : Text} {negative : Bool} (read : exponent t = some (negative, power, rest)) :
    rest <:+ t := by
  unfold exponent at read
  split at read
  · next mark more =>
    dsimp only at read
    split at read
    · simp only [Option.some.injEq, Prod.mk.injEq] at read
      rw [← read.2.2]
      exact ((List.dropWhile_suffix _).trans (splitSign_suffix more)).trans (List.suffix_cons _ _)
    · cases read
  · cases read

def afterExponent (comma : Bool) (t : Text) : Text :=
  let afterWhole := t.dropWhile Char.isDigit
  let afterFraction := ((fraction comma afterWhole).getD ([], afterWhole)).2
  ((exponent afterFraction).getD (false, [], afterFraction)).2.2

theorem literal_eq (comma : Bool) (t : Text) :
    literal comma t = .absent ∨ Follows (afterExponent comma t) t ∧ ∃ mantissa,
      literal comma t = match suffix (afterExponent comma t) with
        | .torn => .torn
        | .absent => .found mantissa ((afterExponent comma t).dropWhile Char.isAlpha)
        | .found scale rest => .found (mantissa * scale) (rest.dropWhile Char.isAlpha) := by
  unfold literal afterExponent
  dsimp only
  have digits : t.dropWhile Char.isDigit <:+ t := List.dropWhile_suffix _
  have whole : (t.takeWhile Char.isDigit) ≠ [] → (t.dropWhile Char.isDigit).length < t.length := by
    intro nonempty
    have split := congrArg List.length (List.takeWhile_append_dropWhile (p := Char.isDigit) (l := t))
    have positive := List.length_pos_iff.mpr nonempty
    rw [List.length_append] at split
    omega
  have last (u : Text) : ((exponent u).getD (false, [], u)).2.2 <:+ u := by
    rcases eq : exponent u with _ | ⟨negative, power, rest⟩
    · exact List.suffix_rfl
    · exact exponent_suffix eq
  split
  · exact .inl rfl
  · next present =>
    refine .inr ⟨?_, _, rfl⟩
    rcases eq : fraction comma (t.dropWhile Char.isDigit) with _ | ⟨fractional, rest⟩
    · have nonempty : t.takeWhile Char.isDigit ≠ [] := by
        rintro empty
        simp [eq, empty] at present
      exact .after (last _) ⟨digits, whole nonempty⟩
    · obtain ⟨suffix, shorter⟩ := fraction_suffix eq
      refine .after (last _) ⟨suffix.trans digits, ?_⟩
      have bound := suffix.length_le
      by_cases nonempty : t.takeWhile Char.isDigit = []
      · have nonempty : fractional ≠ [] := by
          rintro rfl
          simp [eq, nonempty] at present
        have := digits.length_le
        have := shorter nonempty
        simp only [Option.getD_some]
        omega
      · have := whole nonempty
        simp only [Option.getD_some]
        omega

theorem suffix_found {t rest : Text} {scale : Float} (read : suffix t = .found scale rest) : rest <:+ t := by
  unfold suffix at read
  split at read
  · cases read
  · split at read
    · simp only [Scan.found.injEq] at read
      exact read.2 ▸ List.drop_suffix _ _
    · cases read

theorem literal_follows {comma : Bool} {t rest : Text} {v : Float} (read : literal comma t = .found v rest) :
    Follows rest t := by
  rcases literal_eq comma t with absent | ⟨follows, mantissa, eq⟩
  · rw [absent] at read
    cases read
  · rw [eq] at read
    split at read
    · cases read
    · simp only [Scan.found.injEq] at read
      exact read.2 ▸ .after (List.dropWhile_suffix _) follows
    · next found =>
      simp only [Scan.found.injEq] at read
      exact read.2 ▸ .after ((List.dropWhile_suffix _).trans (suffix_found found)) follows

private theorem utf8Size_of_suffixLetter {c n : Char} (same : suffixLetter c = n) (letter : n.utf8Size = 1)
    (kelvin : c ≠ '\u212a') : c.utf8Size = n.utf8Size := by
  rw [letter]
  simp only [suffixLetter, kelvin, if_false] at same
  subst same
  unfold Char.toLower at letter
  split at letter
  · next upper =>
    simp only [Char.utf8Size]
    rw [if_pos]
    exact UInt32.le_trans (UInt32.le_iff_toNat_le.mpr (UInt32.le_iff_toNat_le.mp upper.2)) (by decide)
  · exact letter

theorem suffix_torn {t : Text} (torn : suffix t = .torn) : '\u212a' ∈ t := by
  unfold suffix at torn
  split at torn
  · cases torn
  · next name scale found =>
    split at torn
    · cases torn
    · next differ =>
      have starts := List.find?_some found
      have member := List.mem_of_find?_eq_some found
      by_contra absent
      apply differ
      have ascii : ∀ n ∈ name, n.utf8Size = 1 := by
        have all : (suffixes.all fun entry => entry.1.all fun n => n.utf8Size == 1) = true := by decide
        simpa using List.all_eq_true.mp (List.all_eq_true.mp all _ member)
      simp only [startsWithSuffix, Bool.and_eq_true, beq_iff_eq] at starts
      have letters : ∀ c ∈ t.take name.length, c ≠ '\u212a' := by
        rintro c inside rfl
        exact absent (List.mem_of_mem_take inside)
      have sizes : ∀ (u name : Text), u.map suffixLetter = name → (∀ n ∈ name, n.utf8Size = 1) →
          (∀ c ∈ u, c ≠ '\u212a') → byteSize u = byteSize name := by
        rintro u _ rfl
        induction u with
        | nil => simp
        | cons c u ih =>
          intro ascii letters
          simp only [List.map_cons, List.forall_mem_cons] at ascii letters
          simp only [List.map_cons, byteSize_cons, ih ascii.2 letters.2,
            utf8Size_of_suffixLetter rfl ascii.1 letters.1]
      exact sizes _ _ starts.2 ascii letters

theorem literal_torn {comma : Bool} {t : Text} (torn : literal comma t = .torn) : '\u212a' ∈ t := by
  rcases literal_eq comma t with absent | ⟨follows, mantissa, eq⟩
  · rw [absent] at torn
    cases torn
  · rw [eq] at torn
    split at torn
    · next found => exact follows.1.subset (suffix_torn found)
    · cases torn
    · cases torn

/-- A point starts a number only in front of a digit. -/
theorem digit_of_point {comma : Bool} {t : Text} (present : literal comma ('.' :: t) ≠ .absent) :
    t.head?.any Char.isDigit = true := by
  by_contra other
  apply present
  have undigited : t.takeWhile Char.isDigit = [] := by
    cases t with
    | nil => rfl
    | cons c rest => exact List.takeWhile_cons_of_neg (by simpa using other)
  have point : Char.isDigit '.' = false := by decide
  simp [literal, fraction, undigited, point]

end Number

theorem range_of_identifierStart {c : Char} (start : isIdentifierStart c = true) :
    (65 ≤ c.toNat ∧ c.toNat ≤ 90) ∨ (97 ≤ c.toNat ∧ c.toNat ≤ 122) ∨ c = '_' := by
  delta isIdentifierStart Char.isAlpha Char.isUpper Char.isLower at start
  simp only [Bool.or_eq_true, Bool.and_eq_true, decide_eq_true_eq, beq_iff_eq, or_assoc, UInt32.le_iff_toNat_le] at start
  exact start

theorem not_numeral {c : Char} (start : isIdentifierStart c = true) (digit : Bool) :
    (c.isDigit || (c == '.' && digit)) = false := by
  have point : c ≠ '.' := by rintro rfl; exact absurd start (by decide)
  have ascii : c.isDigit = false := by
    rw [Bool.eq_false_iff, Ne, Char.isDigit_iff_toNat]
    intro numeral
    rcases range_of_identifierStart start with upper | lower | rfl
    · exact absurd (numeral.2.trans_lt (by decide)) upper.1.not_gt
    · exact absurd (numeral.2.trans_lt (by decide)) lower.1.not_gt
    · exact absurd numeral.2 (by decide)
  simp [ascii, point]

end Netlist
