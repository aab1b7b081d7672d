import Netlist.Proofs.Pattern.Replacement
import Netlist.Proofs.Spice.Markers

/-!
The removal of continuation markers as a scan. A marker behind the line that goes on is tried before one
in front of the following line, and takes the line break with it.
-/
namespace Netlist.Spice

open Pattern Cursor

def behindBreak? (t : Text) : Option Text :=
  if firstTerminator t = [] then none else some (t.drop (firstTerminator t).length)

def behindCurrentMarker? (t : Text) : Option Text :=
  (behind? (.single '\\') t).bind fun u => (behindBreak? (u.dropWhile isBlank)).map (·.dropWhile isBlank)

def behindNextMarker? (t : Text) : Option Text :=
  (behindBreak? t).bind fun u => (behind? (.single '+') (u.dropWhile isBlank)).map (·.dropWhile isBlank)

def behindMarker? (t : Text) : Option Text :=
  (behindCurrentMarker? (t.dropWhile isBlank)).or (behindNextMarker? (t.dropWhile isBlank))

variable {t rest : Text} {x : Char} {q : Pattern} {g : Text → Option Text}

theorem behindBreak?_eq_some (read : behindBreak? t = some rest) : t = firstTerminator t ++ rest ∧ firstTerminator t ≠ [] := by
  unfold behindBreak? at read
  split at read
  · cases read
  · next broken =>
    rw [← Option.some.inj read]
    refine ⟨?_, broken⟩
    rcases firstTerminator_cases broken with ⟨more, rfl⟩ | ⟨more, rfl⟩ | ⟨more, rfl, single⟩
    · rfl
    · rfl
    · rw [firstTerminator_return single]
      rfl

theorem firstTerminator_inside (inside : isLineBreak x = false) : firstTerminator (x :: t) = [] := by
  unfold firstTerminator
  split
  · next heq =>
    obtain ⟨rfl, _⟩ := List.cons.inj heq
    cases inside
  · next heq =>
    obtain ⟨rfl, _⟩ := List.cons.inj heq
    exact if_neg (by simp [inside])
  · rfl

theorem behindBreak?_inside (inside : isLineBreak x = false) : behindBreak? (x :: t) = none :=
  if_pos (firstTerminator_inside inside)

theorem exists_break (read : behindBreak? t = some rest) : ∃ y more, t = y :: more ∧ isLineBreak y = true := by
  obtain ⟨_, broken⟩ := behindBreak?_eq_some read
  rcases firstTerminator_cases broken with ⟨more, rfl⟩ | ⟨more, rfl⟩ | ⟨more, rfl, _⟩
  · exact ⟨_, _, rfl, rfl⟩
  · exact ⟨_, _, rfl, rfl⟩
  · exact ⟨_, _, rfl, rfl⟩

theorem dropWhile_of_break (read : behindBreak? t = some rest) : t.dropWhile isBlank = t := by
  obtain ⟨y, more, rfl, broken⟩ := exists_break read
  refine List.dropWhile_cons_of_neg fun blank => ?_
  rw [not_isLineBreak_of_isBlank blank] at broken
  cases broken

/-! ### What the patterns read -/

theorem reads_lineBreak : lineBreak.Reads behindBreak? where
  found {c rest} read := by
    obtain ⟨eq, broken⟩ := behindBreak?_eq_some read
    obtain ⟨e, head⟩ : ∃ e, (lineBreak.ends c).head? = some e := ⟨_, List.head?_eq_some_head (lineBreak_ends_ne_nil broken)⟩
    obtain ⟨spans, _⟩ := lineBreak_head? head
    exact ⟨e, head, List.append_cancel_left (spans.rest.symm.trans eq)⟩
  absent {c} read := by
    refine List.eq_nil_iff_forall_not_mem.mpr fun e member => ?_
    have broken : firstTerminator c.rest ≠ [] := by
      rcases lineBreak_reaches (reaches_of_mem_ends member) with ⟨_, broken⟩ | ⟨rest, eq, _⟩
      · exact broken
      · rw [eq]
        exact List.cons_ne_nil _ _
    rw [behindBreak?, if_neg broken] at read
    cases read

/-- Behind a line break comes what cannot begin with the second half of one. -/
theorem reads_lineBreakThen (second : q.Reads g) (apart : ∀ t, g ('\n' :: t) = none) :
    (Pattern.seq lineBreak q).Reads fun t => (behindBreak? t).bind g where
  found read := by
    obtain ⟨middle, before, behind⟩ := Option.bind_eq_some_iff.mp read
    obtain ⟨d, head, rfl⟩ := reads_lineBreak.found before
    obtain ⟨e, head', left⟩ := second.found behind
    exact ⟨e, head?_collect_first head head', left⟩
  absent {c} read := by
    refine collect_eq_nil fun d member => second.absent ?_
    rcases lineBreak_reaches (reaches_of_mem_ends member) with ⟨spans, broken⟩ | ⟨rest, _, half⟩
    · have before : behindBreak? c.rest = some d.rest := by rw [behindBreak?, if_neg broken, spans.drop]
      rwa [before] at read
    · rw [half]
      exact apart rest

theorem reads_blanks : blanks.Reads fun t => some (t.dropWhile isBlank) :=
  (Reads.many (.ofList (chars " \t"))).congr fun t => by rw [contains_blanks]

theorem reads_blanksThen (second : q.Reads g) (apart : ∀ x t, isBlank x = true → g (x :: t) = none) :
    (Pattern.seq blanks q).Reads fun t => g (t.dropWhile isBlank) :=
  (Reads.manyThen second fun x t blank => apart x t (by rwa [contains_blanks] at blank)).congr fun t => by rw [contains_blanks]

theorem behind?_single_ne {c : Char} (apart : x ≠ c) : behind? (.single c) (x :: t) = none := by
  rw [behind?_cons, contains_single, if_neg (by simpa using apart)]

theorem reads_continuationMarker : continuationMarker.Reads behindMarker? := by
  have breakThenBlanks : (Pattern.seq lineBreak blanks).Reads fun t => (behindBreak? t).map (·.dropWhile isBlank) :=
    (reads_lineBreak.seq reads_blanks fun _ _ _ => Option.some_ne_none _).congr fun t => by rw [Option.map_eq_bind]; rfl
  have current := reads_blanksThen
    (Reads.setThen (s := .single '\\') (reads_blanksThen breakThenBlanks fun x t blank => by
      rw [behindBreak?_inside (not_isLineBreak_of_isBlank blank)]
      rfl))
    fun x t blank => by
      rw [behind?_single_ne (by rintro rfl; cases blank)]
      rfl
  have plus : (Pattern.seq (literally "+") blanks).Reads fun t => (behind? (.single '+') t).map (·.dropWhile isBlank) :=
    (Reads.setThen reads_blanks).congr fun t => by rw [Option.map_eq_bind]; rfl
  have next := reads_blanksThen
    (reads_lineBreakThen (reads_blanksThen plus fun x t blank => by
      rw [behind?_single_ne (by rintro rfl; cases blank)]
      rfl)
      fun t => rfl)
    fun x t blank => by
      rw [behindBreak?_inside (not_isLineBreak_of_isBlank blank)]
      rfl
  exact current.alt next

/-! ### Where markers are -/

def solid (t : Text) : Text := t.filter (!isBlank ·)

theorem solid_append (t u : Text) : solid (t ++ u) = solid t ++ solid u := List.filter_append ..

theorem solid_eq_nil : solid t = [] ↔ ∀ x ∈ t, isBlank x = true := by
  simp [solid]

theorem dropWhile_of_solid_cons {more : Text} (eq : solid t = x :: more) :
    ∃ rest, t.dropWhile isBlank = x :: rest ∧ solid rest = more := by
  induction t with
  | nil => cases eq
  | cons y t ih =>
    cases blank : isBlank y with
    | true =>
      obtain ⟨rest, dropped, behind⟩ := ih (by simpa [solid, blank] using eq)
      exact ⟨rest, by rwa [List.dropWhile_cons_of_pos blank], behind⟩
    | false =>
      obtain ⟨rfl, rfl⟩ : y = x ∧ solid t = more := by simpa [solid, blank] using eq
      exact ⟨t, List.dropWhile_cons_of_neg (by simp [blank]), rfl⟩

theorem dropWhile_append_of_blank {v : Text} (blank : solid v = []) (t : Text) :
    (v ++ t).dropWhile isBlank = t.dropWhile isBlank :=
  List.dropWhile_append_of_pos (solid_eq_nil.mp blank)

theorem dropWhile_append_of_solid {v more : Text} (eq : v.dropWhile isBlank = x :: more) (t : Text) :
    (v ++ t).dropWhile isBlank = x :: more ++ t := by
  rw [List.dropWhile_append, eq]
  rfl

theorem behindMarker?_blank (blank : isBlank x = true) (t : Text) : behindMarker? (x :: t) = behindMarker? t := by
  unfold behindMarker?
  rw [List.dropWhile_cons_of_pos blank]

theorem mem_of_dropWhile_cons {v more : Text} (eq : v.dropWhile isBlank = x :: more) : ∀ y ∈ x :: more, y ∈ v :=
  fun _ member => (List.dropWhile_sublist isBlank).subset (eq ▸ member)

/-- Text inside a line, unless it is blank or a marker, is not the start of a marker. -/
theorem behindMarker?_inside {v more : Text} (inside : ∀ y ∈ v, isLineBreak y = false) (eq : solid v = x :: more)
    (unmarked : x ≠ '\\' ∨ more ≠ []) (t : Text) : behindMarker? (v ++ t) = none := by
  obtain ⟨rest, dropped, behind⟩ := dropWhile_of_solid_cons eq
  have within := mem_of_dropWhile_cons dropped
  have closed : isLineBreak x = false := inside x (within x List.mem_cons_self)
  unfold behindMarker? behindCurrentMarker? behindNextMarker?
  rw [dropWhile_append_of_solid dropped, List.cons_append, behindBreak?_inside closed]
  by_cases same : x = '\\'
  · subst same
    obtain ⟨y, others, rfl⟩ := List.exists_cons_of_ne_nil (unmarked.resolve_left fun apart => apart rfl)
    obtain ⟨rest', dropped', _⟩ := dropWhile_of_solid_cons behind
    have closed' : isLineBreak y = false :=
      inside y (within y (List.mem_cons_of_mem _ (mem_of_dropWhile_cons dropped' y List.mem_cons_self)))
    rw [behind?_cons, if_pos (contains_single_self _), Option.bind_some, dropWhile_append_of_solid dropped',
      List.cons_append, behindBreak?_inside closed']
    rfl
  · rw [behind?_single_ne same]
    rfl

/-- A current-line marker behind which the line ends. -/
theorem behindMarker?_current {v : Text} (eq : solid v = ['\\']) (ends : behindBreak? t = some rest) :
    behindMarker? (v ++ t) = some (rest.dropWhile isBlank) := by
  obtain ⟨behind, dropped, blank⟩ := dropWhile_of_solid_cons eq
  have solidBreak : t.dropWhile isBlank = t := dropWhile_of_break ends
  unfold behindMarker? behindCurrentMarker? behindNextMarker?
  rw [dropWhile_append_of_solid dropped, List.cons_append, behind?_cons, if_pos (contains_single_self _), Option.bind_some,
    dropWhile_append_of_blank blank, solidBreak, ends]
  rfl

/-- The end of a line behind which a next-line marker comes. -/
theorem behindMarker?_next {v more : Text} (blank : solid v = []) (ends : behindBreak? t = some rest)
    (marked : rest.dropWhile isBlank = '+' :: more) : behindMarker? (v ++ t) = some (more.dropWhile isBlank) := by
  have solidBreak : t.dropWhile isBlank = t := dropWhile_of_break ends
  have none_else : behind? (.single '\\') t = none := by
    obtain ⟨y, others, rfl, broken⟩ := exists_break ends
    exact behind?_single_ne (by rintro rfl; cases broken)
  unfold behindMarker? behindCurrentMarker? behindNextMarker?
  rw [dropWhile_append_of_blank blank, solidBreak, none_else, ends, Option.bind_none, Option.none_or, Option.bind_some, marked,
    behind?_cons, if_pos (contains_single_self _)]
  rfl

/-- Inside a line there is no marker. -/
theorem behindMarker?_line {v : Text} (inside : ∀ y ∈ v, isLineBreak y = false) : behindMarker? v = none := by
  have unbroken {u : Text} (part : ∀ y ∈ u, y ∈ v) : behindBreak? u = none := by
    cases u with
    | nil => rfl
    | cons y u => exact behindBreak?_inside (inside y (part y List.mem_cons_self))
  have dropped : ∀ y ∈ v.dropWhile isBlank, y ∈ v := fun y member => (List.dropWhile_sublist isBlank).subset member
  unfold behindMarker? behindCurrentMarker? behindNextMarker?
  rw [unbroken dropped]
  cases eq : v.dropWhile isBlank with
  | nil => rfl
  | cons x more =>
    rw [behind?_cons]
    split
    · have later : ∀ y ∈ more.dropWhile isBlank, y ∈ v := fun y member =>
        dropped y (eq ▸ List.mem_cons_of_mem _ ((List.dropWhile_sublist isBlank).subset member))
      rw [Option.bind_some, unbroken later]
      rfl
    · rfl

end Netlist.Spice
