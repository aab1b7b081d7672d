import Netlist.Proofs.Line.Slice

/-!
Logical lines as a partition of their text. They lie one behind the other, each holds whole physical
lines, and a cut between two physical lines is one between logical lines exactly if no marker joins
the two.
-/
namespace Netlist

/-- Whether logical lines follow one another from a position to another one without gaps, none of them
empty and the number of each counting all physical lines in front of it. -/
def Fills : Nat → Nat → List LogicalLine → Nat → Prop
  | position, _, [], stop => position = stop
  | position, number, line :: lines, stop =>
    line.start = position ∧ line.start < line.stop ∧ line.line = number ∧
      Fills line.stop (number + line.physicalLines) lines stop

def Separated (lines : List LogicalLine) (position : Nat) : Prop :=
  ∃ front line next back, lines = front ++ line :: next :: back ∧ line.stop = position ∧ next.start = position

def LogicalReader.skip : Nat → LogicalReader → LogicalReader
  | 0, reader => reader
  | count + 1, reader => skip count reader.next.2

/-! ### Physical lines -/

theorem not_isLineBreak_of_mem_content (t : Text) :
    ∀ line ∈ physicalLines t, ∀ c ∈ line.content, isLineBreak c = false := by
  fun_induction physicalLines t with
  | case1 => simp
  | case2 rest ih | case3 c rest pair hc ih =>
    intro line member
    rcases List.mem_cons.mp member with rfl | later
    · simp
    · exact ih line later
  | case4 c rest pair hc empty ih =>
    intro line member d inside
    obtain rfl := List.mem_singleton.mp member
    obtain rfl := List.mem_singleton.mp inside
    simpa using hc
  | case5 c rest pair hc first lines eq ih =>
    rw [eq] at ih
    intro line member
    rcases List.mem_cons.mp member with rfl | later
    · intro d inside
      rcases List.mem_cons.mp inside with rfl | inside
      · simpa using hc
      · exact ih first List.mem_cons_self d inside
    · exact ih line (List.mem_cons_of_mem _ later)

/-- Only the last line of a text can lack a terminator. -/
theorem terminator_ne_nil {t : Text} {line next : PhysicalLine} {lines : List PhysicalLine}
    (eq : physicalLines t = line :: next :: lines) : line.terminator ≠ [] := by
  obtain ⟨single, _, seam⟩ := first_physicalLine eq
  obtain ⟨c, ends, hc⟩ := (seam (List.cons_ne_nil _ _)).broken
  intro bare
  rw [PhysicalLine.whole, bare, List.append_nil] at ends
  have inside := not_isLineBreak_of_mem_content t line (eq ▸ List.mem_cons_self) c (List.mem_of_getLast? ends)
  rw [hc] at inside
  cases inside

theorem whole_ne_nil {t : Text} {line : PhysicalLine} (member : line ∈ physicalLines t) : line.whole ≠ [] := by
  obtain ⟨front, back, eq⟩ := List.append_of_mem member
  obtain ⟨_, others, _⟩ := physicalLines_pieces eq
  obtain ⟨single, _, _⟩ := first_physicalLine others
  intro empty
  rw [empty] at single
  cases single

theorem byteSize_le_of_sublist {s t : Text} (sublist : s.Sublist t) : byteSize s ≤ byteSize t := by
  induction sublist with
  | slnil => exact Nat.le_refl _
  | cons c _ ih => exact Nat.le_trans ih (Nat.le_add_left _ _)
  | cons_cons c _ ih => exact Nat.add_le_add_left ih _

namespace Continuation
variable {k : Continuation}

theorem byteSize_source_cons (line : PhysicalLine) (lines : List PhysicalLine) :
    byteSize (source (line :: lines)) = byteSize line.content + byteSize line.terminator + byteSize (source lines) := by
  rw [← byteSize_append]
  exact byteSize_append line.whole (source lines)

/-- Lines that end at the same place of a text are the same lines. -/
theorem eq_of_byteSize_eq {lines front front' back back' : List PhysicalLine} (solid : ∀ line ∈ lines, line.whole ≠ [])
    (eq : lines = front ++ back) (eq' : lines = front' ++ back')
    (size : byteSize (source front) = byteSize (source front')) : front = front' := by
  have nothing (more : List PhysicalLine) (inside : ∀ line ∈ more, line ∈ lines) (empty : byteSize (source more) = 0) : more = [] := by
    cases more with
    | nil => rfl
    | cons line more =>
      have positive := byteSize_pos (solid line (inside line List.mem_cons_self))
      have whole := byteSize_source_cons line more
      rw [PhysicalLine.whole, byteSize_append] at positive
      omega
  rcases List.append_eq_append_iff.mp (eq.symm.trans eq') with ⟨more, rfl, rfl⟩ | ⟨more, rfl, rfl⟩
  · rw [source_append, byteSize_append] at size
    rw [nothing more (fun line member => by simp [eq, member]) (by omega), List.append_nil]
  · rw [source_append, byteSize_append] at size
    rw [nothing more (fun line member => by simp [eq, member]) (by omega), List.append_nil]

/-! ### Runs -/

/-- A cut between two runs: each part has its own runs, and no marker joins the lines at the cut. -/
theorem group_eq_append {lines : List PhysicalLine} {runs others : List (List PhysicalLine)}
    (eq : k.group lines = runs ++ others) :
    k.group others.flatten = others ∧
      ∀ last next, runs.flatten.getLast? = some last → others.flatten.head? = some next → k.joins last next = false := by
  induction runs generalizing lines with
  | nil =>
    have flat : others.flatten = lines := by rw [← k.group_flatten lines, eq, List.nil_append]
    rw [flat]
    exact ⟨eq, fun _ _ ends => nomatch ends⟩
  | cons run runs ih =>
    obtain ⟨nonempty, behind, parts⟩ := group_eq_cons eq
    obtain ⟨second, parts'⟩ := ih behind
    refine ⟨second, fun last next ends starts => ?_⟩
    by_cases empty : runs.flatten = []
    · rw [List.flatten_cons, empty, List.append_nil] at ends
      refine parts last next ends ?_
      have rest : (runs ++ others).flatten = others.flatten := by rw [List.flatten_append, empty, List.nil_append]
      exact (congrArg List.head? rest).trans starts
    · rw [List.flatten_cons, List.getLast?_append, List.getLast?_eq_some_getLast empty, Option.some_or,
        ← List.getLast?_eq_some_getLast empty] at ends
      exact parts' last next ends starts

theorem ne_nil_of_mem_group {lines run : List PhysicalLine} (member : run ∈ k.group lines) : run ≠ [] := by
  obtain ⟨front, back, eq⟩ := List.append_of_mem member
  exact (group_eq_cons (group_eq_append eq).1).1

/-- The runs come apart between two lines exactly if no marker joins the two. -/
theorem exists_runs_iff (front back : List PhysicalLine) {before after : PhysicalLine} :
    (∃ runs others, k.group (front ++ before :: after :: back) = runs ++ others ∧ runs.flatten = front ++ [before]) ↔
      k.joins before after = false := by
  have whole : front ++ before :: after :: back = (front ++ [before]) ++ after :: back := by simp
  constructor
  · rintro ⟨runs, others, eq, flat⟩
    have rest : others.flatten = after :: back := by
      have all := k.group_flatten (front ++ before :: after :: back)
      rw [eq, List.flatten_append, flat, whole] at all
      exact List.append_cancel_left all
    exact (group_eq_append eq).2 before after (by simp [flat]) (by simp [rest])
  · intro apart
    refine ⟨k.group (front ++ [before]), k.group (after :: back), ?_, k.group_flatten _⟩
    rw [whole]
    refine k.group_append fun line next ends starts => ?_
    obtain rfl : before = line := by simpa using ends
    obtain rfl : after = next := by simpa using starts
    exact apart

/-! ### Spliced text -/

theorem withoutNextMarker_sublist (k : Continuation) (content : Text) : (k.withoutNextMarker content).Sublist content := by
  unfold withoutNextMarker
  split
  · exact (List.drop_sublist _ _).trans (List.dropWhile_sublist _)
  · exact List.Sublist.refl _

theorem withoutCurrentMarker_sublist (k : Continuation) (content : Text) : (k.withoutCurrentMarker content).Sublist content := by
  unfold withoutCurrentMarker
  split
  · have trimmed : (dropEndWhile isBlank content).Sublist content := by
      have reversed := (List.dropWhile_sublist isBlank (l := content.reverse)).reverse
      rwa [List.reverse_reverse] at reversed
    exact (List.dropLast_sublist _).trans trimmed
  · exact List.Sublist.refl _

theorem mem_spliceRest {lines : List PhysicalLine} {c : Char} (member : c ∈ k.spliceRest lines) :
    c = ' ' ∨ ∃ line ∈ lines, c ∈ line.content := by
  fun_induction spliceRest k lines with
  | case1 => cases member
  | case2 last =>
    rcases List.mem_cons.mp member with rfl | inside
    · exact .inl rfl
    · exact .inr ⟨last, List.mem_cons_self, (k.withoutNextMarker_sublist _).subset inside⟩
  | case3 line lines _ ih =>
    rcases List.mem_append.mp member with own | later
    · rcases List.mem_cons.mp own with rfl | inside
      · exact .inl rfl
      · have sublist := (k.withoutCurrentMarker_sublist _).trans (k.withoutNextMarker_sublist line.content)
        exact .inr ⟨line, List.mem_cons_self, sublist.subset inside⟩
    · obtain blank | ⟨other, among, inside⟩ := ih later
      · exact .inl blank
      · exact .inr ⟨other, List.mem_cons_of_mem _ among, inside⟩

theorem mem_splice {lines : List PhysicalLine} {c : Char} (member : c ∈ k.splice lines) :
    c = ' ' ∨ ∃ line ∈ lines, c ∈ line.content := by
  unfold splice at member
  split at member
  · cases member
  · exact .inr ⟨_, List.mem_cons_self, member⟩
  · next line lines _ =>
    rcases List.mem_append.mp member with own | later
    · exact .inr ⟨line, List.mem_cons_self, (k.withoutCurrentMarker_sublist _).subset own⟩
    · obtain blank | ⟨other, among, inside⟩ := mem_spliceRest later
      · exact .inl blank
      · exact .inr ⟨other, List.mem_cons_of_mem _ among, inside⟩

/-- Each space of a splice stands for a terminator, which is no shorter. -/
theorem byteSize_spliceRest_le {t : Text} {lines : List PhysicalLine} (eq : physicalLines t = lines) :
    byteSize (k.spliceRest lines) ≤ 1 + byteSize (source lines) := by
  induction lines generalizing t with
  | nil => simp [spliceRest]
  | cons line lines ih =>
    have whole := byteSize_source_cons line lines
    obtain ⟨_, others, _⟩ := first_physicalLine eq
    have without := byteSize_le_of_sublist (k.withoutNextMarker_sublist line.content)
    have space : ' '.utf8Size = 1 := rfl
    cases lines with
    | nil =>
      simp only [spliceRest, byteSize_cons, space]
      omega
    | cons next lines =>
      have behind := ih others
      have terminated := byteSize_pos (terminator_ne_nil eq)
      have without' := byteSize_le_of_sublist (k.withoutCurrentMarker_sublist (k.withoutNextMarker line.content))
      simp only [spliceRest, List.cons_append, byteSize_cons, byteSize_append, space]
      omega

theorem byteSize_splice_le {t : Text} {lines : List PhysicalLine} (eq : physicalLines t = lines) :
    byteSize (k.splice lines) ≤ byteSize (source lines) := by
  cases lines with
  | nil => simp [splice]
  | cons line lines =>
    have whole := byteSize_source_cons line lines
    obtain ⟨_, others, _⟩ := first_physicalLine eq
    cases lines with
    | nil =>
      simp only [splice]
      omega
    | cons next lines =>
      have behind := byteSize_spliceRest_le (k := k) others
      have terminated := byteSize_pos (terminator_ne_nil eq)
      have without := byteSize_le_of_sublist (k.withoutCurrentMarker_sublist line.content)
      simp only [splice, byteSize_append]
      omega

end Continuation

/-! ### Logical lines -/

namespace LogicalLine

structure StandsFor (k : Continuation) (t : Text) (line : LogicalLine) (run : List PhysicalLine) : Prop where
  raw : line.raw t = Continuation.source run
  lines : Netlist.physicalLines (Continuation.source run) = run
  single : k.group run = [run]
  text : line.text = k.splice run
  count : line.physicalLines = run.length
  size : line.stop = line.start + byteSize (Continuation.source run)

end LogicalLine

open Continuation in
theorem exists_run_of_mem_describeRuns {k : Continuation} {reader : LogicalReader} (same : reader.continuation = k)
    {t skipped rest : Text} {runs : List (List PhysicalLine)} (text : t = skipped ++ rest)
    (grouped : k.group (physicalLines rest) = runs) (place : reader.position = byteSize skipped) :
    ∀ line ∈ describeRuns reader runs, ∃ run, line.StandsFor k t run := by
  induction runs generalizing rest skipped reader with
  | nil => exact fun line member => nomatch member
  | cons run runs ih =>
    obtain ⟨pieces, _, single, others, _⟩ := group_pieces grouped
    have own : physicalLines (source run) = run := by
      rw [← k.group_flatten (physicalLines (source run)), single]
      simp
    intro line member
    rcases List.mem_cons.mp member with rfl | later
    · have raw : (reader.describe run).raw t = source run := LogicalReader.raw_describe (by rw [text, pieces]) place
      rw [own] at single
      exact ⟨run, raw, own, single, congrArg (fun k => k.splice run) same, rfl, rfl⟩
    · have text' : t = (skipped ++ source run) ++ source runs.flatten := by rw [List.append_assoc, ← pieces, text]
      have place' : (reader.describe run).stop = byteSize (skipped ++ source run) := by
        rw [LogicalReader.describe, place, byteSize_append]
      let reader' : LogicalReader := { reader with position := (reader.describe run).stop, line := reader.line + run.length }
      exact ih (show reader'.continuation = k from same) text' others place' line later

/-- Each logical line of a text stands for some of its physical lines. -/
theorem exists_run {k : Continuation} {t : Text} {line : LogicalLine} (member : line ∈ logicalLines k t) :
    ∃ run, line.StandsFor k t run := by
  have same : (LogicalReader.ofText k t).continuation = k := rfl
  exact exists_run_of_mem_describeRuns same (List.nil_append t).symm rfl rfl line member

theorem LogicalReader.describeRuns_runs (reader : LogicalReader) (others runs : List (List PhysicalLine)) :
    describeRuns { reader with runs := others } runs = describeRuns reader runs := by
  induction runs generalizing reader with
  | nil => rfl
  | cons run runs ih =>
    exact congrArg (List.cons (reader.describe run))
      (ih { reader with position := (reader.describe run).stop, line := reader.line + run.length })

theorem LogicalReader.describeRuns_next (reader : LogicalReader) :
    describeRuns reader.next.2 reader.next.2.runs = (describeRuns reader reader.runs).tail := by
  unfold next
  split
  · next none_left => simp [none_left, describeRuns]
  · next run runs eq =>
    rw [eq]
    exact describeRuns_runs { reader with position := (reader.describe run).stop, line := reader.line + run.length } runs runs

theorem LogicalReader.peek_eq_next (reader : LogicalReader) : reader.peek = reader.next.1 := by
  unfold next peek
  cases reader.runs <;> rfl

/-- Read one after the other, lines come in the order of the list. -/
theorem LogicalReader.next_skip (reader : LogicalReader) (n : Nat) :
    (reader.skip n).next.1 = (describeRuns reader reader.runs)[n]? := by
  induction n generalizing reader with
  | zero =>
    rw [skip, ← peek_eq_next, peek, ← List.head?_eq_getElem?]
    cases reader.runs <;> rfl
  | succ n ih => rw [skip, ih, describeRuns_next, List.getElem?_tail]

open Continuation in
theorem fills_describeRuns (reader : LogicalReader) {runs : List (List PhysicalLine)} (solid : ∀ run ∈ runs, source run ≠ []) :
    Fills reader.position reader.line (describeRuns reader runs) (reader.position + byteSize (source runs.flatten)) := by
  induction runs generalizing reader with
  | nil => rfl
  | cons run runs ih =>
    have positive := byteSize_pos (solid run List.mem_cons_self)
    have behind := ih { reader with position := (reader.describe run).stop, line := reader.line + run.length }
      fun run member => solid run (List.mem_cons_of_mem _ member)
    refine ⟨rfl, Nat.lt_add_of_pos_right positive, rfl, ?_⟩
    rw [List.flatten_cons, source_append, byteSize_append, ← Nat.add_assoc]
    exact behind

theorem separated_cons {line : LogicalLine} {lines : List LogicalLine} {position : Nat} :
    Separated (line :: lines) position ↔
      (line.stop = position ∧ ∃ next, lines.head? = some next ∧ next.start = position) ∨ Separated lines position := by
  constructor
  · rintro ⟨front, last, next, back, eq, ends, starts⟩
    cases front with
    | nil =>
      obtain ⟨rfl, rfl⟩ := List.cons.inj eq
      exact .inl ⟨ends, next, rfl, starts⟩
    | cons first front =>
      obtain ⟨rfl, rfl⟩ := List.cons.inj eq
      exact .inr ⟨front, last, next, back, rfl, ends, starts⟩
  · rintro (⟨ends, next, head, starts⟩ | ⟨front, last, next, back, rfl, ends, starts⟩)
    · obtain ⟨back, rfl⟩ := List.head?_eq_some_iff.mp head
      exact ⟨[], line, next, back, rfl, ends, starts⟩
    · exact ⟨line :: front, last, next, back, rfl, ends, starts⟩

open Continuation in
theorem separated_describeRuns {reader : LogicalReader} {runs : List (List PhysicalLine)} {position : Nat} :
    Separated (describeRuns reader runs) position ↔
      ∃ front back, runs = front ++ back ∧ front ≠ [] ∧ back ≠ [] ∧ position = reader.position + byteSize (source front.flatten) := by
  induction runs generalizing reader with
  | nil =>
    constructor
    · rintro ⟨front, _, _, _, eq, _⟩
      exact absurd eq (by simp [describeRuns])
    · rintro ⟨front, back, eq, nonempty, _⟩
      exact absurd (List.append_eq_nil_iff.mp eq.symm).1 nonempty
  | cons run runs ih =>
    let reader' : LogicalReader := { reader with position := (reader.describe run).stop, line := reader.line + run.length }
    have unfolded : describeRuns reader (run :: runs) = reader.describe run :: describeRuns reader' runs := rfl
    have ends : (reader.describe run).stop = reader.position + byteSize (source run) := rfl
    have place : reader'.position = reader.position + byteSize (source run) := rfl
    rw [unfolded, separated_cons, ih, place, ends]
    constructor
    · rintro (⟨rfl, next, head, starts⟩ | ⟨front, back, rfl, nonempty, more, rfl⟩)
      · refine ⟨[run], runs, rfl, List.cons_ne_nil _ _, ?_, by simp⟩
        rintro rfl
        cases head
      · refine ⟨run :: front, back, rfl, List.cons_ne_nil _ _, more, ?_⟩
        rw [List.flatten_cons, source_append, byteSize_append, Nat.add_assoc]
    · rintro ⟨front, back, eq, nonempty, more, rfl⟩
      obtain ⟨first, front, rfl⟩ := List.exists_cons_of_ne_nil nonempty
      obtain ⟨rfl, rfl⟩ := List.cons.inj eq
      rw [List.flatten_cons, source_append, byteSize_append]
      cases front with
      | nil =>
        obtain ⟨next, back, rfl⟩ := List.exists_cons_of_ne_nil more
        exact .inl ⟨by simp [source], reader'.describe next, rfl, by simp [source, LogicalReader.describe, reader']⟩
      | cons second front =>
        exact .inr ⟨second :: front, back, rfl, List.cons_ne_nil _ _, more, by rw [Nat.add_assoc]⟩

theorem fills_logicalLines (k : Continuation) (t : Text) : Fills 0 1 (logicalLines k t) (byteSize t) := by
  have solid : ∀ run ∈ k.group (physicalLines t), Continuation.source run ≠ [] := by
    intro run member empty
    obtain ⟨line, more, rfl⟩ := List.exists_cons_of_ne_nil (Continuation.ne_nil_of_mem_group member)
    have among : line ∈ physicalLines t := by
      rw [← k.group_flatten (physicalLines t)]
      exact List.mem_flatten.mpr ⟨_, member, List.mem_cons_self⟩
    exact whole_ne_nil among (List.append_eq_nil_iff.mp empty).1
  have filled := fills_describeRuns (LogicalReader.ofText k t) solid
  have place : (LogicalReader.ofText k t).position = 0 := rfl
  rw [k.group_flatten, Continuation.source_physicalLines, place, Nat.zero_add] at filled
  exact filled

/-- A cut between two physical lines is one between logical lines exactly if no marker joins the two. -/
theorem separated_logicalLines {k : Continuation} {t : Text} {front back : List PhysicalLine} {before after : PhysicalLine}
    (eq : physicalLines t = front ++ before :: after :: back) :
    Separated (logicalLines k t) (byteSize (Continuation.source (front ++ [before]))) ↔ k.joins before after = false := by
  have place : (LogicalReader.ofText k t).position = 0 := rfl
  rw [← Continuation.exists_runs_iff front back, ← eq, logicalLines, separated_describeRuns, place]
  have whole : physicalLines t = (front ++ [before]) ++ after :: back := by rw [eq, List.append_assoc, List.singleton_append]
  constructor
  · rintro ⟨runs, others, grouped, _, _, size⟩
    have lines : physicalLines t = runs.flatten ++ others.flatten := by
      rw [← List.flatten_append, ← k.group_flatten (physicalLines t)]
      exact congrArg List.flatten grouped
    refine ⟨runs, others, grouped, ?_⟩
    exact Continuation.eq_of_byteSize_eq (fun line => whole_ne_nil) lines whole (by omega)
  · rintro ⟨runs, others, grouped, flat⟩
    have rest : others.flatten = after :: back := by
      have all := k.group_flatten (physicalLines t)
      rw [grouped, List.flatten_append, flat, whole] at all
      exact List.append_cancel_left all
    refine ⟨runs, others, grouped, ?_, ?_, by rw [flat, Nat.zero_add]⟩
    · rintro rfl
      simp at flat
    · rintro rfl
      cases rest

/-- Logical lines come apart between physical lines only. -/
theorem exists_lines_of_separated {k : Continuation} {t : Text} {position : Nat} (apart : Separated (logicalLines k t) position) :
    ∃ front before after back, physicalLines t = front ++ before :: after :: back ∧
      position = byteSize (Continuation.source (front ++ [before])) := by
  obtain ⟨runs, others, grouped, nonempty, more, rfl⟩ := separated_describeRuns.mp apart
  have grouped : k.group (physicalLines t) = runs ++ others := grouped
  have lines : physicalLines t = runs.flatten ++ others.flatten := by
    rw [← List.flatten_append, ← grouped, k.group_flatten]
  have solid {runs : List (List PhysicalLine)} (among : ∀ run ∈ runs, run ∈ k.group (physicalLines t)) (nonempty : runs ≠ []) :
      runs.flatten ≠ [] := by
    obtain ⟨run, runs, rfl⟩ := List.exists_cons_of_ne_nil nonempty
    intro empty
    exact Continuation.ne_nil_of_mem_group (among run List.mem_cons_self) (List.append_eq_nil_iff.mp empty).1
  obtain ⟨front, before, eq⟩ : ∃ front before, runs.flatten = front ++ [before] :=
    ⟨_, _, (List.dropLast_concat_getLast (solid (fun run member => by simp [grouped, member]) nonempty)).symm⟩
  obtain ⟨after, back, eq'⟩ := List.exists_cons_of_ne_nil (solid (fun run member => by simp [grouped, member]) more)
  refine ⟨front, before, after, back, by rw [lines, eq, eq', List.append_assoc, List.singleton_append], ?_⟩
  rw [← eq]
  exact Nat.zero_add _

/-- The logical lines of a text partition it: they fill it, they count its physical lines, they come
apart where no marker joins, and each is spliced into one line that is no longer than its source. A
reader gives them one after the other, and peeks at the one that it gives next. -/
theorem logicalLines_partition (k : Continuation) (t : Text) :
    Fills 0 1 (logicalLines k t) (byteSize t) ∧
      (∀ line ∈ logicalLines k t, line.physicalLines = (physicalLines (line.raw t)).length) ∧
      (∀ position, Separated (logicalLines k t) position → ∃ front before after back,
        physicalLines t = front ++ before :: after :: back ∧ position = byteSize (Continuation.source (front ++ [before]))) ∧
      (∀ front before after back, physicalLines t = front ++ before :: after :: back →
        (Separated (logicalLines k t) (byteSize (Continuation.source (front ++ [before]))) ↔
          k.continuesCurrent before.content = false ∧ k.continuesPrevious after.content = false)) ∧
      (∀ line ∈ logicalLines k t,
        (∀ c ∈ line.text, isLineBreak c = false) ∧ byteSize line.text ≤ line.stop - line.start) ∧
      ∀ n, ((LogicalReader.ofText k t).skip n).next.1 = (logicalLines k t)[n]? ∧
        ((LogicalReader.ofText k t).skip n).peek = (logicalLines k t)[n]? := by
  refine ⟨fills_logicalLines k t, fun line member => ?_, fun _ => exists_lines_of_separated,
    fun front before after back eq => ?_, fun line member => ⟨?_, ?_⟩, fun n => ?_⟩
  · obtain ⟨run, stands⟩ := exists_run member
    rw [stands.count, stands.raw, stands.lines]
  · rw [separated_logicalLines eq, Continuation.joins, Bool.or_eq_false_iff]
  · obtain ⟨run, stands⟩ := exists_run member
    intro c inside
    rw [stands.text] at inside
    obtain rfl | ⟨other, among, within⟩ := Continuation.mem_splice inside
    · rfl
    · rw [← stands.lines] at among
      exact not_isLineBreak_of_mem_content _ other among c within
  · obtain ⟨run, stands⟩ := exists_run member
    rw [stands.text, stands.size, Nat.add_sub_cancel_left]
    exact Continuation.byteSize_splice_le stands.lines
  · rw [LogicalReader.peek_eq_next, LogicalReader.next_skip]
    exact ⟨rfl, rfl⟩

end Netlist
