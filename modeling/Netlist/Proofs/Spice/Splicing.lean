import Netlist.Proofs.Line.Partition
import Netlist.Proofs.Line.Terminators
import Netlist.Proofs.Spice.Continuations

/-!
Two ways to remove continuations. Splicing strips each physical line of the marker at either end of it,
and replacement takes one marker with each line break. They agree, up to blanks, on line breaks that
have one marker; where a line break has both, replacement leaves the second one behind.
-/
namespace Netlist

def isGap (c : Char) : Bool := isBlank c || isLineBreak c

def words (t : Text) : List Text := (t.splitOnP isGap).filter (!·.isEmpty)

/-- A text with every run of blanks and line breaks collapsed to one space, and with none at its ends. -/
def collapsed (t : Text) : Text := joined [' '] (words t)

/-! ### Words -/

theorem isGap_of_isBlank {c : Char} (blank : isBlank c = true) : isGap c = true := by
  rw [isGap, blank, Bool.true_or]

theorem words_nil : words [] = [] := by simp [words, List.splitOnP_nil]

theorem words_append_gap {c : Char} (gap : isGap c = true) (left right : Text) :
    words (left ++ c :: right) = words left ++ words right := by
  rw [words, List.splitOnP_append_cons left right gap, List.filter_append]
  rfl

theorem words_cons_gap {c : Char} (gap : isGap c = true) (t : Text) : words (c :: t) = words t := by
  have split := words_append_gap gap [] t
  rwa [words_nil] at split

theorem words_append_blanks (t : Text) {blanks : Text} (blank : ∀ c ∈ blanks, isBlank c = true) : words (t ++ blanks) = words t := by
  have none_inside : words blanks = [] := by
    induction blanks with
    | nil => exact words_nil
    | cons c blanks ih =>
      rw [words_cons_gap (isGap_of_isBlank (blank c List.mem_cons_self)), ih fun c member => blank c (List.mem_cons_of_mem _ member)]
  cases blanks with
  | nil => rw [List.append_nil]
  | cons c blanks =>
    have gap := isGap_of_isBlank (blank c List.mem_cons_self)
    rw [words_cons_gap gap] at none_inside
    rw [words_append_gap gap, none_inside, List.append_nil]

theorem flatten_splitOnP (p : Char → Bool) (t : Text) : (t.splitOnP p).flatten = t.filter (!p ·) := by
  induction t with
  | nil => simp [List.splitOnP_nil]
  | cons c t ih =>
    rw [List.splitOnP_cons_eq_if_modifyHead]
    obtain ⟨first, others, eq⟩ := List.exists_cons_of_ne_nil (List.splitOnP_ne_nil p t)
    rw [eq] at ih
    cases sep : p c <;> simp [sep, eq, ← ih]

theorem flatten_words (t : Text) : (words t).flatten = t.filter (!isGap ·) := by
  rw [words, ← flatten_splitOnP]
  exact List.flatten_filter_not_isEmpty

theorem count_joined_space {c : Char} (apart : c ≠ ' ') (items : List Text) :
    (joined [' '] items).count c = items.flatten.count c := by
  fun_induction joined [' '] items with
  | case1 => rfl
  | case2 item => rw [List.flatten_cons, List.flatten_nil, List.append_nil]
  | case3 item next rest ih =>
    rw [List.count_append, List.count_append, ih, List.flatten_cons, List.count_append, List.count_singleton]
    simp [apart.symm]

theorem count_collapsed {c : Char} (inside : isGap c = false) (t : Text) : (collapsed t).count c = t.count c := by
  have apart : c ≠ ' ' := by
    rintro rfl
    cases inside
  rw [collapsed, count_joined_space apart, flatten_words, List.count_filter (by simp [inside])]

/-! ### Markers of a line -/

namespace Spice
variable {t u : Text} {x : Char}

theorem head?_dropWhile_blank (t : Text) : (t.dropWhile isBlank).head? = (solid t).head? := by
  cases eq : solid t with
  | nil =>
    have dropped := dropWhile_append_of_blank eq []
    rw [List.append_nil] at dropped
    rw [dropped]
    rfl
  | cons y more =>
    obtain ⟨rest, dropped, _⟩ := dropWhile_of_solid_cons eq
    rw [dropped]
    rfl

theorem solid_reverse (t : Text) : solid t.reverse = (solid t).reverse := List.filter_reverse

theorem getLast?_trimmed (t : Text) : (dropEndWhile isBlank t).getLast? = (solid t).getLast? := by
  rw [dropEndWhile, List.getLast?_reverse, head?_dropWhile_blank, solid_reverse, List.head?_reverse]

theorem getLast?_solid (last : t.getLast? = some x) (inside : isBlank x = false) : (solid t).getLast? = some x := by
  obtain ⟨front, rfl⟩ := List.getLast?_eq_some_iff.mp last
  simp [solid, inside]

theorem continuesCurrent_iff : Continuation.netlist.continuesCurrent t = true ↔ (solid t).getLast? = some '\\' := by
  rw [← getLast?_trimmed]
  exact beq_iff_eq

theorem continuesPrevious_iff : Continuation.netlist.continuesPrevious t = true ↔ (solid t).head? = some '+' := by
  rw [← head?_dropWhile_blank]
  exact beq_iff_eq

theorem exists_trimmed (t : Text) : ∃ gap, t = dropEndWhile isBlank t ++ gap ∧ solid gap = [] ∧
    ∀ y, (dropEndWhile isBlank t).getLast? = some y → isBlank y = false := by
  refine ⟨(t.reverse.takeWhile isBlank).reverse, ?_, ?_, fun y last => ?_⟩
  · rw [dropEndWhile, ← List.reverse_append, List.takeWhile_append_dropWhile, List.reverse_reverse]
  · rw [solid_reverse, solid_eq_nil.mpr fun y member => List.all_eq_true.mp List.all_takeWhile y member]
    rfl
  · rw [getLast?_trimmed] at last
    simpa using (List.mem_filter.mp (List.mem_of_getLast? last)).2

theorem words_trimmed (t : Text) : words (dropEndWhile isBlank t) = words t := by
  obtain ⟨gap, eq, blank, _⟩ := exists_trimmed t
  conv => rhs; rw [eq]
  rw [words_append_blanks _ (solid_eq_nil.mp blank)]

theorem exists_withoutCurrentMarker (marked : Continuation.netlist.continuesCurrent t = true) :
    ∃ gap, t = Continuation.netlist.withoutCurrentMarker t ++ '\\' :: gap ∧ solid gap = [] := by
  obtain ⟨gap, eq, blank, _⟩ := exists_trimmed t
  obtain ⟨front, trimmed⟩ := List.getLast?_eq_some_iff.mp ((getLast?_trimmed t).trans (continuesCurrent_iff.mp marked))
  refine ⟨gap, ?_, blank⟩
  rw [Continuation.withoutCurrentMarker, if_pos marked, trimmed, List.dropLast_concat]
  rw [trimmed, List.append_assoc] at eq
  exact eq

theorem dropWhile_withoutNextMarker (marked : Continuation.netlist.continuesPrevious t = true) :
    t.dropWhile isBlank = '+' :: Continuation.netlist.withoutNextMarker t := by
  obtain ⟨rest, eq⟩ := List.head?_eq_some_iff.mp ((head?_dropWhile_blank t).trans (continuesPrevious_iff.mp marked))
  rw [Continuation.withoutNextMarker, if_pos marked, eq]
  rfl

theorem solid_withoutNextMarker (marked : Continuation.netlist.continuesPrevious t = true) :
    solid t = '+' :: solid (Continuation.netlist.withoutNextMarker t) := by
  have front : solid (t.takeWhile isBlank) = [] :=
    solid_eq_nil.mpr fun y member => List.all_eq_true.mp List.all_takeWhile y member
  conv => lhs; rw [← List.takeWhile_append_dropWhile (p := isBlank) (l := t)]
  rw [solid_append, front, dropWhile_withoutNextMarker marked]
  rfl

theorem continuesCurrent_withoutNextMarker (t : Text) :
    Continuation.netlist.continuesCurrent (Continuation.netlist.withoutNextMarker t) = Continuation.netlist.continuesCurrent t := by
  by_cases marked : Continuation.netlist.continuesPrevious t = true
  · rw [Bool.eq_iff_iff, continuesCurrent_iff, continuesCurrent_iff, solid_withoutNextMarker marked, List.getLast?_cons]
    cases (solid (Continuation.netlist.withoutNextMarker t)).getLast? with
    | none => simp
    | some y => simp
  · rw [Continuation.withoutNextMarker, if_neg marked]

/-! ### Replaced markers -/

theorem consumes_marker : continuationMarker.nullable = false := rfl

theorem withoutContinuations_kept {u : Text} (none_inside : ∀ x more, (x :: more) <:+ u → behindMarker? (x :: more ++ t) = none) :
    withoutContinuations (u ++ t) = u ++ withoutContinuations t :=
  reads_continuationMarker.replaceAll_append consumes_marker [' '] none_inside

theorem withoutContinuations_found {rest : Text} (read : behindMarker? t = some rest) :
    withoutContinuations t = ' ' :: withoutContinuations rest :=
  reads_continuationMarker.replaceAll_found consumes_marker [' '] read

theorem withoutContinuations_line (inside : ∀ y ∈ t, isLineBreak y = false) : withoutContinuations t = t := by
  have kept := withoutContinuations_kept (t := []) (u := t) fun x more suffix => by
    rw [List.append_nil]
    exact behindMarker?_line fun y member => inside y (suffix.subset member)
  rw [List.append_nil] at kept
  rw [kept, withoutContinuations, reads_continuationMarker.replaceAll_nil [' '] rfl, List.append_nil]

/-- Blanks at the start have no part in what words are left. -/
theorem words_withoutContinuations_dropWhile (t : Text) :
    words (withoutContinuations (t.dropWhile isBlank)) = words (withoutContinuations t) := by
  induction t with
  | nil => rfl
  | cons x t ih =>
    cases blank : isBlank x with
    | false => rw [List.dropWhile_cons_of_neg (by simp [blank])]
    | true =>
      rw [List.dropWhile_cons_of_pos blank, ih]
      cases read : behindMarker? t with
      | none =>
        have kept := reads_continuationMarker.replaceAll_kept consumes_marker [' '] ((behindMarker?_blank blank t).trans read)
        rw [withoutContinuations, withoutContinuations, kept, words_cons_gap (isGap_of_isBlank blank)]
      | some rest => rw [withoutContinuations_found read, withoutContinuations_found ((behindMarker?_blank blank t).trans read)]

/-- Each end piece of a text without blanks at its end has its last character. -/
theorem solid_suffix {front more : Text} (solid_last : ∀ y, front.getLast? = some y → isBlank y = false)
    (suffix : (x :: more) <:+ front) : ∃ z others, solid (x :: more) = z :: others ∧ (z :: others).getLast? = front.getLast? := by
  obtain ⟨y, last⟩ : ∃ y, (x :: more).getLast? = some y := ⟨_, List.getLast?_eq_some_getLast (List.cons_ne_nil x more)⟩
  have last' : front.getLast? = some y := by
    obtain ⟨before, rfl⟩ := suffix
    rw [getLast?_behind before (List.cons_ne_nil x more), last]
  have held := getLast?_solid last (solid_last y last')
  obtain ⟨z, others, eq⟩ := List.exists_cons_of_ne_nil (List.ne_nil_of_mem (List.mem_of_getLast? held))
  exact ⟨z, others, eq, by rw [← eq, held, last']⟩

/-- What is left of a line that ends with a current-line marker, and goes on behind the line break. -/
theorem withoutContinuations_current {ends rest : Text} (inside : ∀ y ∈ t, isLineBreak y = false)
    (marked : Continuation.netlist.continuesCurrent t = true) (broken : behindBreak? ends = some rest) :
    withoutContinuations (t ++ ends) = dropEndWhile isBlank (Continuation.netlist.withoutCurrentMarker t) ++
      ' ' :: withoutContinuations (rest.dropWhile isBlank) := by
  obtain ⟨gap, eq, blank⟩ := exists_withoutCurrentMarker marked
  obtain ⟨gap', eq', blank', solid_last⟩ := exists_trimmed (Continuation.netlist.withoutCurrentMarker t)
  generalize dropEndWhile isBlank (Continuation.netlist.withoutCurrentMarker t) = front at eq' solid_last ⊢
  generalize Continuation.netlist.withoutCurrentMarker t = held at eq eq'
  subst eq'
  subst eq
  have marker : solid (gap' ++ '\\' :: gap) = ['\\'] := by
    rw [solid_append, blank']
    exact congrArg (List.cons '\\') blank
  have whole : front ++ gap' ++ '\\' :: gap ++ ends = front ++ ((gap' ++ '\\' :: gap) ++ ends) := by simp
  rw [whole, withoutContinuations_kept, withoutContinuations_found (behindMarker?_current marker broken)]
  intro x more suffix
  obtain ⟨z, others, held, _⟩ := solid_suffix solid_last suffix
  have unmarked : solid (x :: more ++ (gap' ++ '\\' :: gap)) = z :: (others ++ ['\\']) := by
    rw [solid_append, held, marker]
    rfl
  rw [← List.append_assoc]
  refine behindMarker?_inside (fun w member => inside w ?_) unmarked (.inr (by simp)) ends
  rcases List.mem_append.mp member with here | there
  · exact List.mem_append_left _ (List.mem_append_left _ (suffix.subset here))
  · rw [List.append_assoc]
    exact List.mem_append_right _ there

theorem withoutContinuations_next {ends rest more : Text} (inside : ∀ y ∈ t, isLineBreak y = false)
    (unmarked : Continuation.netlist.continuesCurrent t = false) (broken : behindBreak? ends = some rest)
    (marked : rest.dropWhile isBlank = '+' :: more) :
    withoutContinuations (t ++ ends) = dropEndWhile isBlank t ++ ' ' :: withoutContinuations (more.dropWhile isBlank) := by
  obtain ⟨gap, eq, blank, solid_last⟩ := exists_trimmed t
  have last := getLast?_trimmed t
  generalize dropEndWhile isBlank t = front at eq solid_last last ⊢
  subst eq
  rw [List.append_assoc, withoutContinuations_kept, withoutContinuations_found (behindMarker?_next blank broken marked)]
  intro x more' suffix
  obtain ⟨z, others, held, last'⟩ := solid_suffix solid_last suffix
  have solid_eq : solid (x :: more' ++ gap) = z :: others := by rw [solid_append, held, blank, List.append_nil]
  rw [← List.append_assoc]
  refine behindMarker?_inside (fun w member => inside w ?_) solid_eq ?_ ends
  · rcases List.mem_append.mp member with here | there
    · exact List.mem_append_left _ (suffix.subset here)
    · exact List.mem_append_right _ there
  · by_contra alone
    obtain ⟨rfl, rfl⟩ : z = '\\' ∧ others = [] := by
      rw [not_or, not_not, not_not] at alone
      exact alone
    refine Bool.eq_false_iff.mp unmarked (continuesCurrent_iff.mpr ?_)
    rw [← last, ← last']
    rfl

/-! ### Continued lines -/

def unterminated : List PhysicalLine → Text
  | [] => []
  | [last] => last.content
  | line :: lines => line.whole ++ unterminated lines

/-- Lines spliced with one marker taken at each line break: in front of a line that a marker behind the
line before it joins already, the next-line marker is left. -/
def spliceSingly : List PhysicalLine → Text
  | [] => []
  | [last] => last.content
  | line :: next :: lines =>
    let content := if Continuation.netlist.continuesCurrent line.content then next.content
      else Continuation.netlist.withoutNextMarker next.content
    Continuation.netlist.withoutCurrentMarker line.content ++ ' ' :: spliceSingly ({ next with content } :: lines)
termination_by lines => lines.length

def doublyMarked : List PhysicalLine → Nat
  | line :: next :: lines =>
    (if Continuation.netlist.continuesCurrent line.content && Continuation.netlist.continuesPrevious next.content then 1 else 0) +
      doublyMarked (next :: lines)
  | _ => 0

/-- Lines joined by markers, the last one without its terminator. -/
inductive Continued : List PhysicalLine → Prop where
  | last {line : PhysicalLine} (inside : ∀ c ∈ line.content, isLineBreak c = false) : Continued [line]
  | more {line next : PhysicalLine} {lines : List PhysicalLine} (inside : ∀ c ∈ line.content, isLineBreak c = false)
      (broken : behindBreak? (line.terminator ++ unterminated (next :: lines)) = some (unterminated (next :: lines)))
      (joined : Continuation.netlist.joins line next = true) (rest : Continued (next :: lines)) :
      Continued (line :: next :: lines)

theorem Continued.inside {line : PhysicalLine} {lines : List PhysicalLine} (continued : Continued (line :: lines)) :
    ∀ c ∈ line.content, isLineBreak c = false := by
  cases continued with
  | last inside => exact inside
  | more inside _ _ _ => exact inside

theorem exists_unterminated (line : PhysicalLine) (lines : List PhysicalLine) :
    ∃ behind, ∀ content : Text, unterminated ({ line with content } :: lines) = content ++ behind := by
  cases lines with
  | nil => exact ⟨[], fun content => (List.append_nil content).symm⟩
  | cons next lines => exact ⟨line.terminator ++ unterminated (next :: lines), fun content => List.append_assoc ..⟩

theorem Continued.withoutNextMarker {line : PhysicalLine} {lines : List PhysicalLine} (continued : Continued (line :: lines)) :
    Continued ({ line with content := Continuation.netlist.withoutNextMarker line.content } :: lines) := by
  have part := (Continuation.netlist.withoutNextMarker_sublist line.content).subset
  cases continued with
  | last inside => exact .last fun c member => inside c (part member)
  | more inside broken joined rest =>
    refine .more (fun c member => inside c (part member)) broken ?_ rest
    rwa [Continuation.joins, continuesCurrent_withoutNextMarker]

/-- The text of continued lines, with their continuation markers replaced, has the words of their splice
with one marker taken at each line break. -/
theorem words_withoutContinuations {line : PhysicalLine} {lines : List PhysicalLine} (continued : Continued (line :: lines)) :
    words (withoutContinuations (unterminated (line :: lines))) = words (spliceSingly (line :: lines)) := by
  have space : isGap ' ' = true := rfl
  induction lines generalizing line with
  | nil =>
    rw [spliceSingly, unterminated, withoutContinuations_line continued.inside]
  | cons next lines ih =>
    cases continued with
    | more inside broken joined rest =>
      have whole : unterminated (line :: next :: lines) = line.content ++ (line.terminator ++ unterminated (next :: lines)) :=
        List.append_assoc ..
      rw [whole, spliceSingly]
      cases marked : Continuation.netlist.continuesCurrent line.content with
      | true =>
        rw [withoutContinuations_current inside marked broken, words_append_gap space, words_append_gap space, words_trimmed,
          words_withoutContinuations_dropWhile, ih rest]
        rfl
      | false =>
        rw [Continuation.joins, marked, Bool.false_or] at joined
        obtain ⟨behind, texts⟩ := exists_unterminated next lines
        have start := dropWhile_withoutNextMarker joined
        have dropped : (unterminated (next :: lines)).dropWhile isBlank =
            '+' :: unterminated ({ next with content := Continuation.netlist.withoutNextMarker next.content } :: lines) := by
          rw [texts next.content, texts (Continuation.netlist.withoutNextMarker next.content), dropWhile_append_of_solid start, List.cons_append]
        have unmarked : Continuation.netlist.withoutCurrentMarker line.content = line.content := by
          rw [Continuation.withoutCurrentMarker, if_neg (by simp [marked])]
        rw [withoutContinuations_next inside marked broken dropped, words_append_gap space, words_append_gap space, words_trimmed,
          words_withoutContinuations_dropWhile, ih rest.withoutNextMarker, unmarked]
        rfl

/-! ### Line breaks with two markers -/

theorem splice_cons_cons (k : Continuation) (line next : PhysicalLine) (lines : List PhysicalLine) :
    k.splice (line :: next :: lines) =
      k.withoutCurrentMarker line.content ++ ' ' :: k.splice ({ next with content := k.withoutNextMarker next.content } :: lines) := by
  cases lines with
  | nil => rfl
  | cons line' lines => rfl

theorem doublyMarked_withoutNextMarker (line : PhysicalLine) (lines : List PhysicalLine) :
    doublyMarked ({ line with content := Continuation.netlist.withoutNextMarker line.content } :: lines) = doublyMarked (line :: lines) := by
  cases lines with
  | nil => rfl
  | cons next lines => rw [doublyMarked, doublyMarked, continuesCurrent_withoutNextMarker]

/-- Where no line break has two markers, taking one is taking all. -/
theorem spliceSingly_eq_splice {lines : List PhysicalLine} (single : doublyMarked lines = 0) :
    spliceSingly lines = Continuation.netlist.splice lines := by
  fun_induction spliceSingly lines with
  | case1 => rfl
  | case2 last => rfl
  | case3 line next lines content ih =>
    rw [doublyMarked, Nat.add_eq_zero_iff] at single
    obtain ⟨here, later⟩ := single
    have same : content = Continuation.netlist.withoutNextMarker next.content := by
      by_cases marked : Continuation.netlist.continuesCurrent line.content = true
      · have unmarked : ¬ Continuation.netlist.continuesPrevious next.content = true := by
          intro both
          simp [marked, both] at here
        rw [Continuation.withoutNextMarker, if_neg unmarked]
        exact if_pos marked
      · exact if_neg marked
    rw [splice_cons_cons, ← same, ih]
    rw [same, doublyMarked_withoutNextMarker]
    exact later

theorem count_solid (t : Text) : (solid t).count '+' = t.count '+' := List.count_filter rfl

theorem count_withoutCurrentMarker (t : Text) : (Continuation.netlist.withoutCurrentMarker t).count '+' = t.count '+' := by
  by_cases marked : Continuation.netlist.continuesCurrent t = true
  · obtain ⟨gap, eq, blank⟩ := exists_withoutCurrentMarker marked
    have marker : solid ('\\' :: gap) = ['\\'] := congrArg (List.cons '\\') blank
    have parts := congrArg solid eq
    rw [solid_append, marker] at parts
    rw [← count_solid, ← count_solid t, parts, List.count_append]
    rfl
  · rw [Continuation.withoutCurrentMarker, if_neg marked]

theorem count_withoutNextMarker (t : Text) : t.count '+' =
    (Continuation.netlist.withoutNextMarker t).count '+' + if Continuation.netlist.continuesPrevious t then 1 else 0 := by
  by_cases marked : Continuation.netlist.continuesPrevious t = true
  · rw [← count_solid, solid_withoutNextMarker marked, if_pos marked, List.count_cons_self, count_solid]
  · rw [Continuation.withoutNextMarker, if_neg marked, if_neg marked, Nat.add_zero]

theorem count_splice (line : PhysicalLine) (lines : List PhysicalLine) :
    (Continuation.netlist.splice (line :: lines)).count '+' =
      (Continuation.netlist.splice ({ line with content := Continuation.netlist.withoutNextMarker line.content } :: lines)).count '+' +
        if Continuation.netlist.continuesPrevious line.content then 1 else 0 := by
  have own := count_withoutNextMarker line.content
  cases lines with
  | nil => exact own
  | cons next lines =>
    rw [splice_cons_cons, splice_cons_cons, List.count_append, List.count_append, count_withoutCurrentMarker,
      count_withoutCurrentMarker, own]
    exact Nat.add_right_comm ..

/-- The next-line markers that are left stand at line breaks with two markers. -/
theorem count_spliceSingly (lines : List PhysicalLine) :
    (spliceSingly lines).count '+' = (Continuation.netlist.splice lines).count '+' + doublyMarked lines := by
  fun_induction spliceSingly lines with
  | case1 => rfl
  | case2 last => rfl
  | case3 line next lines content ih =>
    rw [splice_cons_cons, List.count_append, List.count_append, List.count_cons, List.count_cons, ih, doublyMarked]
    by_cases marked : Continuation.netlist.continuesCurrent line.content = true
    · have same : ({ next with content } : PhysicalLine) = next := congrArg (PhysicalLine.mk · next.terminator) (if_pos marked)
      have counted := count_splice next lines
      rw [same, counted, marked, Bool.true_and]
      omega
    · have same : content = Continuation.netlist.withoutNextMarker next.content := if_neg marked
      have single : (Continuation.netlist.continuesCurrent line.content && Continuation.netlist.continuesPrevious next.content) = false := by
        rw [Bool.eq_false_iff.mpr marked, Bool.false_and]
      rw [same, doublyMarked_withoutNextMarker, single, if_neg Bool.false_ne_true]
      omega

theorem doublyMarked_eq_zero {lines : List PhysicalLine} : doublyMarked lines = 0 ↔
    ∀ front before after back, lines = front ++ before :: after :: back →
      ¬ (Continuation.netlist.continuesCurrent before.content = true ∧ Continuation.netlist.continuesPrevious after.content = true) := by
  fun_induction doublyMarked lines with
  | case1 line next lines ih =>
    rw [Nat.add_eq_zero_iff, ih]
    constructor
    · rintro ⟨here, later⟩ front before after back eq ⟨current, previous⟩
      cases front with
      | nil =>
        obtain ⟨rfl, rest⟩ := List.cons.inj eq
        obtain ⟨rfl, rfl⟩ := List.cons.inj rest
        simp [current, previous] at here
      | cons first front =>
        obtain ⟨rfl, rest⟩ := List.cons.inj eq
        exact later front before after back rest ⟨current, previous⟩
    · intro apart
      refine ⟨if_neg fun both => ?_, fun front before after back eq => ?_⟩
      · exact apart [] line next lines rfl (Bool.and_eq_true_iff.mp both)
      · exact apart (line :: front) before after back (congrArg (List.cons line) eq)
  | case2 lines short =>
    constructor
    · rintro _ front before after back rfl
      cases front with
      | nil => exact absurd rfl (short before after back)
      | cons first front =>
        cases front with
        | nil => exact absurd rfl (short first before (after :: back))
        | cons second front => exact absurd rfl (short first second _)
    · exact fun _ => rfl

/-! ### Logical lines -/

theorem unterminated_append {lines : List PhysicalLine} {last : PhysicalLine} (ends : lines.getLast? = some last) :
    unterminated lines ++ last.terminator = Continuation.source lines := by
  induction lines with
  | nil => cases ends
  | cons line lines ih =>
    cases lines with
    | nil =>
      obtain rfl := Option.some.inj ends
      exact (List.append_nil _).symm
    | cons next lines =>
      have behind := ih (by simpa using ends)
      rw [unterminated, List.append_assoc, behind]
      · rfl
      · simp

def withoutFinalTerminator (t : Text) : Text := unterminated (physicalLines t)

theorem continued_of_isChain {line : PhysicalLine} {lines : List PhysicalLine} (eq : physicalLines t = line :: lines)
    (chain : (line :: lines).IsChain fun line next => Continuation.netlist.joins line next = true) : Continued (line :: lines) := by
  induction lines generalizing t line with
  | nil => exact .last (not_isLineBreak_of_mem_content t line (eq ▸ List.mem_cons_self))
  | cons next lines ih =>
    obtain ⟨_, others, seam⟩ := first_physicalLine eq
    obtain ⟨joined, chain'⟩ := List.isChain_cons_cons.mp chain
    refine .more (not_isLineBreak_of_mem_content t line (eq ▸ List.mem_cons_self)) ?_ joined (ih others chain')
    have nonempty : t ≠ [] := by
      rintro rfl
      cases eq
    have first := physicalLines_eq_firstLine nonempty
    rw [eq] at first
    have own : line.terminator = firstTerminator (t.dropWhile (!isLineBreak ·)) := congrArg PhysicalLine.terminator (List.cons.inj first).1
    have broken : line.terminator ≠ [] := terminator_ne_nil eq
    have whole : ¬ SplitsPair line.terminator (unterminated (next :: lines)) := by
      rintro ⟨back, feed⟩
      refine (seam (List.cons_ne_nil _ _)).whole ⟨?_, ?_⟩
      · rw [PhysicalLine.whole, getLast?_behind line.content broken, back]
      · rw [← unterminated_append (List.getLast?_eq_some_getLast (List.cons_ne_nil next lines)), List.head?_append, feed, Option.some_or]
    rw [own] at broken whole ⊢
    rw [behindBreak?, firstTerminator_append broken whole, if_neg broken, List.drop_left]

/-- The words that are left of a logical line when its continuation markers are replaced. -/
theorem words_stripped {line : LogicalLine} {run : List PhysicalLine} (stands : line.StandsFor .netlist t run) :
    words (withoutContinuations (withoutFinalTerminator (line.raw t))) = words (spliceSingly run) := by
  have own := stands.lines
  obtain ⟨nonempty, _⟩ := Continuation.group_eq_cons stands.single
  obtain ⟨first, others, rfl⟩ := List.exists_cons_of_ne_nil nonempty
  rw [withoutFinalTerminator, stands.raw, own]
  exact words_withoutContinuations (continued_of_isChain own (Continuation.group_chain stands.single))

/-- The spliced text of a logical line and its raw text with all continuation markers replaced are equal
up to blanks, exactly if no line break in it has a marker on both sides. -/
theorem stripped_eq_spliced_iff {line : LogicalLine} (member : line ∈ logicalLines .netlist t) :
    collapsed line.text = collapsed (withoutContinuations (withoutFinalTerminator (line.raw t))) ↔
      ∀ front before after back, physicalLines (line.raw t) = front ++ before :: after :: back →
        ¬ (Continuation.netlist.continuesCurrent before.content = true ∧
          Continuation.netlist.continuesPrevious after.content = true) := by
  obtain ⟨run, stands⟩ := exists_run member
  have stripped : collapsed (withoutContinuations (withoutFinalTerminator (line.raw t))) = collapsed (spliceSingly run) :=
    congrArg (joined [' ']) (words_stripped stands)
  rw [stripped, stands.text, stands.raw, stands.lines, ← doublyMarked_eq_zero]
  constructor
  · intro same
    have counts := congrArg (List.count '+') same
    rw [count_collapsed rfl, count_collapsed rfl, count_spliceSingly] at counts
    omega
  · intro single
    rw [spliceSingly_eq_splice single]

/-- One marker behind the first line, and one in front of the third. -/
theorem stripped_eq_spliced_iff_crlf :
    ∃ line ∈ logicalLines .netlist (chars "a \\\r\n b\n + c\n"), collapsed line.text =
      collapsed (withoutContinuations (withoutFinalTerminator (line.raw (chars "a \\\r\n b\n + c\n")))) := by
  have member : (⟨chars "a   b  c", 1, 3, 0, 13⟩ : LogicalLine) ∈ logicalLines .netlist (chars "a \\\r\n b\n + c\n") := by decide +kernel
  exact ⟨_, member, (stripped_eq_spliced_iff member).mpr (doublyMarked_eq_zero.mp (by decide +kernel))⟩

/-- Of two markers at one line break, the second one is left. -/
theorem stripped_ne_spliced : ∃ line ∈ logicalLines .netlist (chars "a\\\n+b"),
    collapsed line.text ≠ collapsed (withoutContinuations (withoutFinalTerminator (line.raw (chars "a\\\n+b")))) := by
  decide +kernel

end Spice

end Netlist
