import Netlist.Proofs.Expression.Brackets
import Netlist.Proofs.Expression.Complete

/-!
White space around an expression. Tokens are read the same with and without white space behind the text, and an
expression does not end with white space; so a text without the white space around it reads as the same tree.
-/
namespace Netlist

/-! ### Tokens in front of white space -/

theorem skip_skip (t : Text) : skip (skip t) = skip t := by
  unfold skip
  exact List.dropWhile_idempotent _ _

section Blank
variable {b rest t : Text}

theorem isAsciiSpace_of_blank (blank : skip b = []) {c : Char} (first : b.head? = some c) : isAsciiSpace c = true := by
  obtain ⟨more, rfl⟩ := List.head?_eq_some_iff.mp first
  exact List.dropWhile_eq_nil_iff.mp blank c List.mem_cons_self

theorem apart_of_blank (blank : skip b = []) {p : Char → Bool} (off : [' ', '\t', '\n', '\x0c', '\r'].all (fun c => !p c) = true) :
    Apart p b := by
  intro c first
  have ascii := isAsciiSpace_of_blank blank first
  simp only [isAsciiSpace, Bool.or_eq_true, beq_iff_eq, or_assoc] at ascii
  simpa using List.all_eq_true.mp off c (by simpa using ascii)

theorem stops_of_blank (blank : skip b = []) (comma : Bool) : Number.Stops comma b := by
  intro c first
  simp [Number.endsLiteral, isWhiteSpace_of_isAsciiSpace (isAsciiSpace_of_blank blank first)]

theorem skip_append (blank : skip b = []) (t : Text) : skip (t ++ b) = if skip t = [] then [] else skip t ++ b := by
  unfold skip at *
  rw [List.dropWhile_append, blank]
  simp

theorem skip_append_eq_cons (blank : skip b = []) {c : Char} : skip (t ++ b) = c :: (rest ++ b) ↔ skip t = c :: rest := by
  rw [skip_append blank]
  split
  · next empty => simp [empty]
  · rw [← List.cons_append, List.append_cancel_right_eq]

theorem identifier?_append (blank : skip b = []) {name : Text} :
    identifier? (t ++ b) = some (name, rest ++ b) ↔ identifier? t = some (name, rest) := by
  have parts : Apart isIdentifierPart b := apart_of_blank blank (by decide)
  unfold identifier?
  rw [skip_append blank]
  cases skip t with
  | nil => simp
  | cons c more =>
    rw [if_neg (List.cons_ne_nil c more), parts.takeWhile, parts.dropWhile]
    cases start : isIdentifierStart c <;> simp [start]

theorem callHead?_append (blank : skip b = []) {name : Text} :
    callHead? (t ++ b) = some (name, rest ++ b) ↔ callHead? t = some (name, rest) := by
  rw [callHead?_eq_some, callHead?_eq_some]
  constructor
  · rintro ⟨after, read, opened⟩
    obtain ⟨front, same⟩ := (List.suffix_append _ b).trans (suffix_of_skip_eq opened).1
    subst same
    exact ⟨front, (identifier?_append blank).mp read, (skip_append_eq_cons blank).mp opened⟩
  · rintro ⟨after, read, opened⟩
    exact ⟨after ++ b, (identifier?_append blank).mpr read, (skip_append_eq_cons blank).mpr opened⟩

theorem sign?_append (blank : skip b = []) {s : UnaryOperator} (signed : sign? (t ++ b) = some (s, rest ++ b)) :
    sign? t = some (s, rest) := by
  unfold sign? at signed
  split at signed
  · next eq =>
    cases signed
    simp [sign?, (skip_append_eq_cons blank).mp eq]
  · next eq =>
    cases signed
    simp [sign?, (skip_append_eq_cons blank).mp eq]
  · next eq =>
    cases signed
    simp [sign?, (skip_append_eq_cons blank).mp eq]
  · cases signed

theorem captureArguments_append {depth : Nat} {inQuotes : Bool} {current : Text} {done arguments : List Text}
    (read : captureArguments depth inQuotes current done (t ++ b) = some (arguments, rest ++ b)) :
    captureArguments depth inQuotes current done t = some (arguments, rest) := by
  induction t generalizing depth inQuotes current done with
  | nil =>
    have shorter := (captureArguments_follows read).2
    simp only [List.nil_append, List.length_append] at shorter
    omega
  | cons c t ih =>
    rw [List.cons_append] at read
    unfold captureArguments at read ⊢
    split_ifs at read ⊢ with quoted quote opening closing outermost comma
    · exact ih read
    · exact ih read
    · exact ih read
    · obtain ⟨rfl, same⟩ := Prod.mk.inj (Option.some.inj read)
      rw [List.append_cancel_right same]
    · exact ih read
    · exact ih read
    · exact ih read

theorem reference?_cases {arguments : List Text} (read : reference? t = some (arguments, rest)) :
    ∃ more, skip t = '@' :: more ∧ more.takeWhile isIdentifierPart ≠ [] ∧
      ((∃ inner, more.dropWhile isIdentifierPart = '[' :: inner ∧ inner.dropWhile (· != ']') = ']' :: rest ∧
          arguments = [more.takeWhile isIdentifierPart, trim (inner.takeWhile (· != ']'))]) ∨
        more.dropWhile isIdentifierPart = rest ∧ rest.head? ≠ some '[' ∧ arguments = [more.takeWhile isIdentifierPart]) := by
  unfold reference? at read
  split at read
  · next more eq =>
    refine ⟨more, eq, ?_⟩
    dsimp only at read
    split_ifs at read with nameless
    refine ⟨by simpa using nameless, ?_⟩
    split at read
    · next inner opened =>
      split at read
      · next c after closed =>
        cases read
        have bracket : c = ']' := by
          have stopped := List.head?_dropWhile_not (· != ']') inner
          simpa [closed] using stopped
        exact .inl ⟨inner, opened, bracket ▸ closed, rfl⟩
      · cases read
    · next plain =>
      cases read
      refine .inr ⟨rfl, fun bracket => ?_, rfl⟩
      obtain ⟨inner, opened⟩ := List.head?_eq_some_iff.mp bracket
      exact plain inner opened
  · cases read

theorem afterName?_append {name : Text} : afterName? name (t ++ b) = some (rest ++ b) ↔ afterName? name t = some rest := by
  simp only [afterName?_eq_some, ← List.append_assoc, List.append_cancel_right_eq]

theorem afterOperator?_append (blank : skip b = []) {f : Function} :
    afterOperator? f (t ++ b) = some (rest ++ b) ↔ afterOperator? f t = some rest := by
  have parts : Apart isIdentifierPart b := apart_of_blank blank (by decide)
  have behind : (rest ++ b).head?.any isIdentifierPart = rest.head?.any isIdentifierPart := by
    cases rest with
    | cons c more => rfl
    | nil =>
      cases b with
      | nil => rfl
      | cons c more => simp [parts c rfl]
  simp only [afterOperator?, Option.filter_eq_some_iff, afterName?_append, behind]

/-- The longest operator of two texts is the same, if every operator is at the start of both or of none. -/
theorem longestOperator?_map {operators : List Function} {t u : Text} (k : Text → Text)
    (same : ∀ g ∈ operators, afterOperator? g u = (afterOperator? g t).map k) :
    longestOperator? operators u = (longestOperator? operators t).map fun best => (best.1, k best.2) := by
  have fold (best : Option (Function × Text)) :
      operators.foldl (betterOperator u) (best.map fun best => (best.1, k best.2)) =
        (operators.foldl (betterOperator t) best).map fun best => (best.1, k best.2) := by
    induction operators generalizing best with
    | nil => rfl
    | cons f operators ih =>
      have next := ih fun g member => same g (List.mem_cons_of_mem f member)
      rw [List.foldl_cons, List.foldl_cons, ← next, betterOperator, betterOperator, same f List.mem_cons_self]
      congr 1
      cases afterOperator? f t with
      | none => rfl
      | some rest =>
        cases best with
        | none => rfl
        | some best =>
          dsimp only [Option.map_some, Option.all_some]
          split <;> rfl
  exact fold none

/-- An operator that does not reach into the white space behind a text is at the start of the text without it. -/
theorem longestOperator?_append (blank : skip b = []) {operators : List Function} {f : Function}
    (read : longestOperator? operators (t ++ b) = some (f, rest ++ b)) : longestOperator? operators t = some (f, rest) := by
  obtain ⟨-, after, longest⟩ := isLongest_of_longestOperator? read
  obtain ⟨p, split, lower⟩ := afterName?_eq_some.mp (Option.filter_eq_some_iff.mp after).1
  have extend (g : Function) (member : g ∈ operators) : afterOperator? g (t ++ b) = (afterOperator? g t).map (· ++ b) := by
    cases here : afterOperator? g t with
    | some more => exact (afterOperator?_append blank).mpr here
    | none =>
      cases there : afterOperator? g (t ++ b) with
      | none => rfl
      | some more =>
        -- It is no longer than the longest one, so it does not reach into the white space either.
        obtain ⟨q, split', lower'⟩ := afterName?_eq_some.mp (Option.filter_eq_some_iff.mp there).1
        have shorter : byteSize q ≤ byteSize p := by
          rw [← byteSize_asciiLower q, ← byteSize_asciiLower p, lower, lower', byteSize_asciiLower, byteSize_asciiLower]
          exact longest g member (by rw [there]; rfl)
        obtain ⟨m, rfl⟩ := prefix_of_byteSize_le (split'.symm.trans split) shorter
        have left : more = m ++ rest ++ b := by simpa [split] using split'.symm
        rw [left, afterOperator?_append blank, here] at there
        cases there
  rw [longestOperator?_map (· ++ b) extend] at read
  obtain ⟨⟨f, more⟩, found, same⟩ := Option.map_eq_some_iff.mp read
  obtain ⟨rfl, left⟩ := Prod.mk.inj same
  have equal : more = rest := List.append_cancel_right left
  rw [found, equal]

theorem longestOperator?_append_eq_none (blank : skip b = []) {operators : List Function}
    (absent : longestOperator? operators (t ++ b) = none) : longestOperator? operators t = none := by
  refine longestOperator?_eq_none fun g member => Option.eq_none_iff_forall_ne_some.mpr fun rest after => ?_
  rw [← afterOperator?_append blank, afterOperator?_eq_none absent member] at after
  cases after

theorem afterOpening?_append {opening : Text} (off : Apart opening.contains b) :
    afterOpening? opening (t ++ b) = (afterOpening? opening t).map (· ++ b) := by
  induction opening generalizing t with
  | nil => rfl
  | cons o opening ih =>
    cases t with
    | nil =>
      cases b with
      | nil => rfl
      | cons c more =>
        have other : o ≠ c := by
          rintro rfl
          simpa using off o rfl
        simp [afterOpening?, other]
    | cons c t =>
      have rest : Apart opening.contains b := fun d first => by
        have absent := off d first
        simp only [List.contains_cons, Bool.or_eq_false_iff] at absent
        exact absent.2
      rw [List.cons_append, afterOpening?, afterOpening?]
      split
      · exact ih rest
      · rfl

theorem read?_append (blank : skip b = []) :
    BinaryOperator.read? (t ++ b) = (BinaryOperator.read? t).map fun found => (found.1, found.2 ++ b) := by
  have solid : ∀ entry ∈ BinaryOperator.spellings,
      [' ', '\t', '\n', '\x0c', '\r'].all (fun c => !entry.1.contains c) = true := by decide
  unfold BinaryOperator.read?
  rw [List.map_findSome?, ← List.head?_filterMap, ← List.head?_filterMap]
  congr 1
  refine List.filterMap_congr fun ⟨spelling, op⟩ member => ?_
  have same := afterOpening?_append (t := t) (apart_of_blank blank (solid _ member))
  dsimp only [Function.comp_apply] at same ⊢
  rw [same]
  cases afterOpening? spelling t <;> rfl

theorem Vocabulary.connective?_append (blank : skip b = []) {w : Vocabulary} {op : Connective}
    (read : w.connective? (t ++ b) = some (op, rest ++ b)) : w.connective? t = some (op, rest) := by
  cases empty : skip t with
  | nil =>
    -- Only an operator without a name can stand here, and nothing follows it.
    have nothing : skip (t ++ b) = [] := by rw [skip_append blank, if_pos empty]
    have suffix : rest ++ b <:+ skip (t ++ b) := connective?_suffix (w := w) (by rwa [Vocabulary.connective?, skip_skip])
    rw [nothing, List.suffix_nil, List.append_eq_nil_iff] at suffix
    obtain ⟨rfl, rfl⟩ := suffix
    simpa using read
  | cons c more =>
    unfold Vocabulary.connective? at read ⊢
    rw [skip_append blank, if_neg (by simp [empty])] at read
    split at read
    · next longest =>
      cases read
      rw [longestOperator?_append blank longest]
    · next absent =>
      rw [longestOperator?_append_eq_none blank absent]
      rw [read?_append blank, Option.map_map] at read
      obtain ⟨⟨op, more⟩, found, same⟩ := Option.map_eq_some_iff.mp read
      obtain ⟨rfl, left⟩ := Prod.mk.inj same
      have equal : more = rest := List.append_cancel_right left
      rw [found, equal]
      rfl

theorem Vocabulary.Delimits.of_append (blank : skip b = []) {w : Vocabulary} {c : Char}
    (delimits : w.Delimits c (t ++ b) (rest ++ b)) : w.Delimits c t rest := by
  obtain ⟨absent, here⟩ := delimits
  have here' := (skip_append_eq_cons blank).mp here
  refine ⟨?_, here'⟩
  rw [here, ← List.cons_append, ← here'] at absent
  exact longestOperator?_append_eq_none blank absent

theorem dropWhile_of_append {p : Char → Bool} {c : Char} (eq : (t ++ b).dropWhile p = c :: (rest ++ b)) :
    t.dropWhile p = c :: rest ∧ (t ++ b).takeWhile p = t.takeWhile p := by
  induction t with
  | nil =>
    have size := (List.dropWhile_suffix (l := b) p).length_le
    rw [show b.dropWhile p = c :: (rest ++ b) from eq, List.length_cons, List.length_append] at size
    omega
  | cons a t ih =>
    cases holds : p a with
    | true =>
      rw [List.cons_append, List.dropWhile_cons_of_pos holds] at eq
      obtain ⟨dropped, taken⟩ := ih eq
      rw [List.cons_append, List.dropWhile_cons_of_pos holds, List.takeWhile_cons_of_pos holds,
        List.takeWhile_cons_of_pos holds, taken]
      exact ⟨dropped, rfl⟩
    | false =>
      have off : ¬ p a = true := by simp [holds]
      rw [List.cons_append, List.dropWhile_cons_of_neg off, ← List.cons_append, ← List.cons_append] at eq
      rw [List.cons_append, List.dropWhile_cons_of_neg off, List.takeWhile_cons_of_neg off, List.takeWhile_cons_of_neg off]
      exact ⟨List.append_cancel_right eq, rfl⟩

theorem reference?_append (blank : skip b = []) {arguments : List Text}
    (read : reference? (t ++ b) = some (arguments, rest ++ b)) : reference? t = some (arguments, rest) := by
  have parts : Apart isIdentifierPart b := apart_of_blank blank (by decide)
  obtain ⟨more, eq, named, ends⟩ := reference?_cases read
  have suffix : b <:+ more := by
    have name := List.dropWhile_suffix (l := more) isIdentifierPart
    rcases ends with ⟨inner, opened, closed, -⟩ | ⟨plain, -⟩
    · have property := List.dropWhile_suffix (l := inner) (· != ']')
      rw [closed] at property
      rw [opened] at name
      exact (((List.suffix_append rest b).trans (List.suffix_cons ']' _)).trans property).trans ((List.suffix_cons '[' inner).trans name)
    · exact (plain ▸ List.suffix_append rest b).trans name
  obtain ⟨front, rfl⟩ := suffix
  have here := (skip_append_eq_cons blank).mp eq
  rw [parts.takeWhile] at named ends
  rw [parts.dropWhile] at ends
  rcases ends with ⟨inner, opened, closed, rfl⟩ | ⟨plain, bracket, rfl⟩
  · have within : b <:+ inner := by
      have property := List.dropWhile_suffix (l := inner) (· != ']')
      rw [closed] at property
      exact ((List.suffix_append rest b).trans (List.suffix_cons ']' _)).trans property
    obtain ⟨inside, rfl⟩ := within
    have opened' : front.dropWhile isIdentifierPart = '[' :: inside := List.append_cancel_right opened
    obtain ⟨closed', property⟩ := dropWhile_of_append closed
    simp [reference?, here, named, opened', closed', property]
  · have plain' : front.dropWhile isIdentifierPart = rest := List.append_cancel_right plain
    have nameless : (front.takeWhile isIdentifierPart).isEmpty = false := List.isEmpty_eq_false_iff.mpr named
    simp only [reference?, here, nameless, plain', Bool.false_eq_true, if_false]
    split
    · exact absurd rfl bracket
    · rfl

end Blank

/-! ### Derivations -/

section Derivations
variable {w : Vocabulary} {inCall : Bool} {s : Symbol} {b t rest : Text} {e : Tree}

theorem exists_append_of_suffix (suffix : rest ++ b <:+ t) : ∃ front, t = front ++ b := by
  obtain ⟨front, rfl⟩ := suffix
  exact ⟨front ++ rest, (List.append_assoc ..).symm⟩

theorem exists_append_of_skip {c : Char} (eq : skip t = c :: (rest ++ b)) : ∃ front, t = front ++ b :=
  exists_append_of_suffix (suffix_of_skip_eq eq).1

/-- White space behind what an expression leaves makes no difference to it. -/
theorem Derives.exists_append (blank : skip b = []) {left : Text} (derives : Derives w inCall s t e left)
    (eq : left = rest ++ b) : ∃ front, t = front ++ b ∧ Derives w inCall s front e rest := by
  induction derives generalizing rest with
  | literal start read =>
    subst eq
    obtain ⟨front, rfl⟩ := exists_append_of_suffix ((Number.literal_follows read).1.trans (skip_suffix _))
    refine ⟨front, rfl, ?_⟩
    rw [skip_append blank] at start read
    split_ifs at start read with empty
    · cases start
    · rw [Number.literal_append (stops_of_blank blank _)] at read
      refine .literal ?_ (Number.Scan.found_of_extend read)
      rwa [List.head?_append_of_ne_nil _ empty] at start
  | parameter read alone =>
    subst eq
    obtain ⟨front, rfl⟩ := exists_append_of_suffix (identifier?_follows read).1
    refine ⟨front, rfl, .parameter ((identifier?_append blank).mp read) ?_⟩
    rw [Option.eq_none_iff_forall_not_mem] at alone ⊢
    intro ⟨name, after⟩ head
    exact alone (name, after ++ b) ((callHead?_append blank).mpr head)
  | reference read =>
    subst eq
    obtain ⟨front, rfl⟩ := exists_append_of_suffix (reference?_follows read).1
    exact ⟨front, rfl, .reference (reference?_append blank read)⟩
  | group opening _ closing ih =>
    subst eq
    obtain ⟨after, rfl⟩ := exists_append_of_skip closing.2
    obtain ⟨inside, rfl, body⟩ := ih rfl
    obtain ⟨front, rfl⟩ := exists_append_of_skip opening
    exact ⟨front, rfl, .group ((skip_append_eq_cons blank).mp opening) body (closing.of_append blank)⟩
  | capture head texts read =>
    subst eq
    obtain ⟨inside, rfl⟩ := exists_append_of_suffix (captureArguments_follows read).1
    obtain ⟨front, rfl⟩ := exists_append_of_suffix (callHead?_follows head).1
    exact ⟨front, rfl, .capture ((callHead?_append blank).mp head) texts (captureArguments_append read)⟩
  | emptyCall head values closing =>
    subst eq
    obtain ⟨inside, rfl⟩ := exists_append_of_skip closing
    obtain ⟨front, rfl⟩ := exists_append_of_suffix (callHead?_follows head).1
    exact ⟨front, rfl, .emptyCall ((callHead?_append blank).mp head) values ((skip_append_eq_cons blank).mp closing)⟩
  | firstArgument head values _ ih =>
    obtain ⟨inside, rfl, argument⟩ := ih eq
    obtain ⟨front, rfl⟩ := exists_append_of_suffix (callHead?_follows head).1
    exact ⟨front, rfl, .firstArgument ((callHead?_append blank).mp head) values argument⟩
  | nextArgument _ comma _ ih_before ih_argument =>
    obtain ⟨inside, rfl, argument⟩ := ih_argument eq
    obtain ⟨after, rfl⟩ := exists_append_of_skip comma.2
    obtain ⟨front, rfl, before⟩ := ih_before rfl
    exact ⟨front, rfl, .nextArgument before (comma.of_append blank) argument⟩
  | closeCall _ closing ih =>
    subst eq
    obtain ⟨after, rfl⟩ := exists_append_of_skip closing.2
    obtain ⟨front, rfl, before⟩ := ih rfl
    exact ⟨front, rfl, .closeCall before (closing.of_append blank)⟩
  | lift _ ih =>
    obtain ⟨front, rfl, tighter⟩ := ih eq
    exact ⟨front, rfl, .lift tighter⟩
  | connective _ read _ ih_left ih_right =>
    obtain ⟨inside, rfl, right⟩ := ih_right eq
    obtain ⟨after, rfl⟩ := exists_append_of_suffix (connective?_suffix read)
    obtain ⟨front, rfl, left⟩ := ih_left rfl
    exact ⟨front, rfl, .connective left (Vocabulary.connective?_append blank read) right⟩
  | signedOperand _ read binds signed _ ih_left ih_right =>
    obtain ⟨inside, rfl, right⟩ := ih_right eq
    obtain ⟨outside, rfl⟩ := exists_append_of_suffix (sign?_follows signed).1
    obtain ⟨after, rfl⟩ := exists_append_of_suffix (connective?_suffix read)
    obtain ⟨front, rfl, left⟩ := ih_left rfl
    exact ⟨front, rfl, .signedOperand left (Vocabulary.connective?_append blank read) binds (sign?_append blank signed) right⟩
  | sign signed _ ih =>
    obtain ⟨inside, rfl, operand⟩ := ih eq
    obtain ⟨front, rfl⟩ := exists_append_of_suffix (sign?_follows signed).1
    exact ⟨front, rfl, .sign (sign?_append blank signed) operand⟩
  | conditional _ question _ colon _ ih_condition ih_consequence ih_otherwise =>
    obtain ⟨last, rfl, otherwise⟩ := ih_otherwise eq
    obtain ⟨after, rfl⟩ := exists_append_of_skip colon.2
    obtain ⟨inside, rfl, consequence⟩ := ih_consequence rfl
    obtain ⟨behind, rfl⟩ := exists_append_of_skip question.2
    obtain ⟨front, rfl, condition⟩ := ih_condition rfl
    exact ⟨front, rfl, .conditional condition (question.of_append blank) consequence (colon.of_append blank) otherwise⟩

def EndsSolid (t rest : Text) : Prop := ∃ p c, t = p ++ c :: rest ∧ isWhiteSpace c = false

theorem EndsSolid.suffix (ends : EndsSolid t rest) : rest <:+ t := by
  obtain ⟨p, c, rfl, -⟩ := ends
  exact ⟨p ++ [c], by simp⟩

theorem EndsSolid.of_suffix {u : Text} (ends : EndsSolid t rest) (suffix : t <:+ u) : EndsSolid u rest := by
  obtain ⟨p, c, rfl, solid⟩ := ends
  obtain ⟨front, rfl⟩ := suffix
  exact ⟨front ++ p, c, by simp, solid⟩

theorem endsSolid_append {p : Text} (nonempty : p ≠ []) (solid : ∀ c ∈ p, isWhiteSpace c = false) (rest : Text) :
    EndsSolid (p ++ rest) rest := by
  refine ⟨p.dropLast, p.getLast nonempty, ?_, solid _ (List.getLast_mem nonempty)⟩
  rw [← List.singleton_append, ← List.append_assoc, List.dropLast_append_getLast]

theorem endsSolid_skip {c : Char} (eq : skip t = c :: rest) (solid : isWhiteSpace c = false) : EndsSolid t rest :=
  EndsSolid.of_suffix ⟨[], c, eq, solid⟩ (skip_suffix t)

theorem isWhiteSpace_of_isIdentifierPart {c : Char} (part : isIdentifierPart c = true) : isWhiteSpace c = false := by
  by_contra white
  have ends : Number.endsLiteral true c = true := by simpa [Number.endsLiteral] using .inl (.inl (.inl (by simpa using white)))
  have off : Number.enders.all (fun c => !isIdentifierPart c) = true := by decide
  have other := List.all_eq_true.mp off c (Number.mem_enders ends)
  simp [part] at other

theorem endsSolid_identifier (nonempty : t.takeWhile isIdentifierPart ≠ []) : EndsSolid t (t.dropWhile isIdentifierPart) := by
  have ends := endsSolid_append nonempty
    (fun c inside => isWhiteSpace_of_isIdentifierPart (List.mem_takeWhile_imp inside)) (t.dropWhile isIdentifierPart)
  rwa [List.takeWhile_append_dropWhile] at ends

theorem endsSolid_literal {comma : Bool} {v : Float} (read : Number.literal comma t = .found v rest) : EndsSolid t rest := by
  obtain ⟨⟨p, rfl⟩, shorter⟩ := Number.literal_follows read
  refine endsSolid_append ?_ (fun c inside => ?_) rest
  · rintro rfl
    simp at shorter
  · have within := Number.endsLiteral_of_literal read inside
    simp only [Number.endsLiteral, Bool.or_eq_false_iff] at within
    exact within.1.1.1.1

theorem endsSolid_identifier? {name : Text} (read : identifier? t = some (name, rest)) : EndsSolid t rest := by
  unfold identifier? at read
  split at read
  · next start =>
    cases read
    refine (endsSolid_identifier ?_).of_suffix (skip_suffix t)
    cases eq : skip t with
    | nil => simp [eq] at start
    | cons c more => 
      have part := isIdentifierPart_of_isIdentifierStart (c := c) (by simpa [eq] using start)
      simp [part]
  · cases read

theorem endsSolid_reference? {arguments : List Text} (read : reference? t = some (arguments, rest)) : EndsSolid t rest := by
  obtain ⟨more, eq, named, ends⟩ := reference?_cases read
  have suffix := (suffix_of_skip_eq eq).1
  have name := List.dropWhile_suffix (l := more) isIdentifierPart
  rcases ends with ⟨inner, opened, closed, -⟩ | ⟨rfl, -⟩
  · have property : ']' :: rest <:+ inner := closed ▸ List.dropWhile_suffix _
    rw [opened] at name
    have bracket : EndsSolid (']' :: rest) rest := ⟨[], ']', rfl, by decide⟩
    exact bracket.of_suffix ((property.trans (List.suffix_cons '[' inner)).trans (name.trans suffix))
  · exact (endsSolid_identifier named).of_suffix suffix

/-- The last character of an expression is no white space. -/
theorem Derives.ends (derives : Derives w inCall s t e rest) : EndsSolid t rest := by
  induction derives with
  | literal start read => exact (endsSolid_literal read).of_suffix (skip_suffix _)
  | parameter read => exact endsSolid_identifier? read
  | reference read => exact endsSolid_reference? read
  | group opening _ closing body =>
    exact (endsSolid_skip closing.2 (by decide)).of_suffix (body.suffix.trans (suffix_of_skip_eq opening).1)
  | capture head _ read =>
    obtain ⟨p, rfl, -⟩ := captureArguments_closes (n := ⟨0, false⟩) read
    exact EndsSolid.of_suffix ⟨p, ')', rfl, by decide⟩ (callHead?_follows head).1
  | emptyCall head _ closing => exact (endsSolid_skip closing (by decide)).of_suffix (callHead?_follows head).1
  | firstArgument head _ _ argument => exact argument.of_suffix (callHead?_follows head).1
  | nextArgument _ comma _ before argument =>
    exact argument.of_suffix ((suffix_of_skip_eq comma.2).1.trans before.suffix)
  | closeCall _ closing before => exact (endsSolid_skip closing.2 (by decide)).of_suffix before.suffix
  | lift _ tighter => exact tighter
  | connective _ read _ left right => exact right.of_suffix ((connective?_suffix read).trans left.suffix)
  | signedOperand _ read _ signed _ left right =>
    exact right.of_suffix (((sign?_follows signed).1.trans (connective?_suffix read)).trans left.suffix)
  | sign signed _ operand => exact operand.of_suffix (sign?_follows signed).1
  | conditional _ question _ colon _ condition consequence otherwise =>
    have chosen := (suffix_of_skip_eq question.2).1.trans condition.suffix
    exact otherwise.of_suffix (((suffix_of_skip_eq colon.2).1.trans consequence.suffix).trans chosen)

/-- White space in front of an expression makes no difference to it. -/
theorem Derives.skipped (derives : Derives w inCall s t e rest) : Derives w inCall s (skip t) e rest := by
  have identifier (t : Text) : identifier? (skip t) = identifier? t := by rw [identifier?, identifier?, skip_skip]
  have head (t : Text) : callHead? (skip t) = callHead? t := by rw [callHead?, callHead?, identifier]
  induction derives with
  | literal start read => exact .literal (by rwa [skip_skip]) (by rwa [skip_skip])
  | parameter read alone => exact .parameter (by rwa [identifier]) (by rwa [head])
  | reference read => exact .reference (by rwa [reference?, skip_skip])
  | group opening body closing => exact .group (by rwa [skip_skip]) body closing
  | capture called texts read => exact .capture (by rwa [head]) texts read
  | emptyCall called values closing => exact .emptyCall (by rwa [head]) values closing
  | firstArgument called values argument => exact .firstArgument (by rwa [head]) values argument
  | nextArgument _ comma argument before => exact .nextArgument before comma argument
  | closeCall _ closing before => exact .closeCall before closing
  | lift _ tighter => exact .lift tighter
  | connective _ read right left => exact .connective left read right
  | signedOperand _ read binds signed right left => exact .signedOperand left read binds signed right
  | sign signed operand => exact .sign (by rwa [sign?, skip_skip]) operand
  | conditional _ question consequence colon otherwise condition =>
    exact .conditional condition question consequence colon otherwise

end Derivations

/-- A text without the white space around it reads as the same tree, and as a whole. -/
theorem Vocabulary.Reads.trimmed {w : Vocabulary} {t : Text} {e : Tree} (reads : w.Reads t e) :
    Derives w false .expression (trim t) e [] := by
  obtain ⟨rest, derives, blank⟩ := reads
  obtain ⟨front, rfl, alone⟩ := derives.exists_append blank (List.nil_append rest).symm
  obtain ⟨c, more, eq, opens⟩ := alone.opens
  obtain ⟨p, d, last, solid⟩ := alone.skipped.ends
  have behind : skip (front ++ rest) = c :: (more ++ rest) := (skip_append_eq_cons blank).mpr eq
  have white : ∀ x ∈ rest.reverse, isWhiteSpace x = true := fun x inside =>
    isWhiteSpace_of_isAsciiSpace (List.dropWhile_eq_nil_iff.mp blank x (List.mem_reverse.mp inside))
  have trimmed : trim (front ++ rest) = skip front := calc
    trim (front ++ rest) = ((skip front ++ rest).reverse.dropWhile isWhiteSpace).reverse := by
      rw [trim, dropEndWhile, dropWhile_isWhiteSpace behind opens.1, eq, List.cons_append]
    _ = ((skip front).reverse.dropWhile isWhiteSpace).reverse := by
      rw [List.reverse_append, List.dropWhile_append_of_pos white]
    _ = skip front := by
      rw [last, List.reverse_append, List.reverse_singleton, List.singleton_append,
        List.dropWhile_cons_of_neg (by simp [solid]), List.reverse_cons, List.reverse_reverse]
  rw [trimmed]
  exact alone.skipped

end Netlist
