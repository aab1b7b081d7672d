import Mathlib.Data.List.TakeWhile
import Netlist.Proofs.Spice.Splicing
import Netlist.Spice.Value

/-!
What is left when continuation markers are replaced. Markers are replaced in one pass, so what the pass keeps
may be another marker once what stood between its parts is a space. Such a text is not settled: to replace
its markers again takes that marker away.
-/
namespace Netlist.Spice

open Pattern

/-- What the pass makes of a text from left to right: a character that it keeps, or a marker that it replaces. -/
inductive Piece where
  | kept (x : Char)
  | marker
  deriving DecidableEq

namespace Piece

def shown : Piece → Char
  | kept x => x
  | marker => ' '

theorem shown_eq {p : Piece} {x : Char} (shows : p.shown = x) (solid : isBlank x = false) : p = kept x := by
  cases p with
  | kept y => rw [← shows, shown]
  | marker =>
    rw [← shows] at solid
    cases solid

end Piece

def pieces (t : Text) : List Piece :=
  match _ : behindMarker? t with
  | some rest => .marker :: pieces rest
  | none =>
    match t with
    | [] => []
    | x :: rest => .kept x :: pieces rest
termination_by t.length
decreasing_by
  · exact reads_continuationMarker.shorter consumes_marker ‹_›
  · exact Nat.lt_succ_self _

variable {t rest : Text} {x : Char} {p : Piece} {ps front back : List Piece}

theorem pieces_marker (read : behindMarker? t = some rest) : pieces t = .marker :: pieces rest := by
  rw [pieces]
  split
  · next read' => rw [Option.some.inj (read.symm.trans read')]
  · next read' => cases read.symm.trans read'

theorem pieces_kept (read : behindMarker? (x :: t) = none) : pieces (x :: t) = .kept x :: pieces t := by
  rw [pieces]
  split
  · next read' => cases read.symm.trans read'
  · rfl

theorem pieces_nil : pieces [] = [] := by
  rw [pieces]
  rfl

theorem exists_piece (eq : pieces t = p :: ps) :
    (∃ rest, behindMarker? t = some rest ∧ p = .marker ∧ pieces rest = ps) ∨
      ∃ x rest, behindMarker? t = none ∧ t = x :: rest ∧ p = .kept x ∧ pieces rest = ps := by
  cases read : behindMarker? t with
  | some rest =>
    rw [pieces_marker read] at eq
    obtain ⟨rfl, rfl⟩ := List.cons.inj eq
    exact .inl ⟨rest, rfl, rfl, rfl⟩
  | none =>
    cases t with
    | nil =>
      rw [pieces_nil] at eq
      cases eq
    | cons x rest =>
      rw [pieces_kept read] at eq
      obtain ⟨rfl, rfl⟩ := List.cons.inj eq
      exact .inr ⟨x, rest, rfl, rfl, rfl, rfl⟩

/-- The pass goes on as if it had begun at any of its pieces. -/
theorem exists_suffix (eq : pieces t = front ++ back) : ∃ u, u <:+ t ∧ pieces u = back := by
  induction front generalizing t with
  | nil => exact ⟨t, List.suffix_rfl, eq⟩
  | cons p front ih =>
    rcases exists_piece eq with ⟨rest, read, _, later⟩ | ⟨x, rest, _, rfl, _, later⟩
    · obtain ⟨u, suffix, same⟩ := ih later
      exact ⟨u, suffix.trans (reads_continuationMarker.suffix read), same⟩
    · obtain ⟨u, suffix, same⟩ := ih later
      exact ⟨u, suffix.trans (List.suffix_cons x rest), same⟩

theorem withoutContinuations_eq (t : Text) : withoutContinuations t = (pieces t).map Piece.shown := by
  fun_induction pieces t with
  | case1 t rest read ih => rw [withoutContinuations_found read, ih, List.map_cons, Piece.shown]
  | case2 read => exact reads_continuationMarker.replaceAll_nil [' '] read
  | case3 x rest read ih =>
    rw [List.map_cons, ← ih, Piece.shown]
    exact reads_continuationMarker.replaceAll_kept consumes_marker [' '] read

/-! ### Texts without markers -/

theorem marker_mem_pieces : .marker ∈ pieces t ↔ ∃ u, u <:+ t ∧ behindMarker? u ≠ none := by
  constructor
  · intro member
    obtain ⟨front, back, eq⟩ := List.append_of_mem member
    obtain ⟨u, suffix, same⟩ := exists_suffix eq
    rcases exists_piece same with ⟨rest, read, _⟩ | ⟨_, _, _, _, no, _⟩
    · exact ⟨u, suffix, by simp [read]⟩
    · cases no
  · rintro ⟨u, suffix, found⟩
    fun_induction pieces t with
    | case1 t rest read ih => exact List.mem_cons_self
    | case2 read =>
      rw [List.suffix_nil.mp suffix] at found
      exact absurd read found
    | case3 x rest read ih =>
      rcases List.suffix_cons_iff.mp suffix with rfl | inner
      · exact absurd read found
      · exact List.mem_cons_of_mem _ (ih inner)

theorem findEnd?_eq_none (t : Text) : continuationMarker.findEnd? t = none ↔ .marker ∉ pieces t := by
  rw [reads_continuationMarker.findEnd?_eq_none rfl, marker_mem_pieces]
  simp

theorem behindMarker?_cases (read : behindMarker? t = some rest) :
    (∃ u more, t.dropWhile isBlank = '\\' :: u ∧ behindBreak? (u.dropWhile isBlank) = some more ∧
      rest = more.dropWhile isBlank) ∨
    ∃ u more, behindBreak? (t.dropWhile isBlank) = some u ∧ u.dropWhile isBlank = '+' :: more ∧
      rest = more.dropWhile isBlank := by
  rcases Option.or_eq_some_iff.mp read with current | ⟨_, next⟩
  · obtain ⟨u, marker, behind⟩ := Option.bind_eq_some_iff.mp current
    obtain ⟨y, eq, inside⟩ := behind?_eq_some marker
    obtain ⟨more, broken, rfl⟩ := Option.map_eq_some_iff.mp behind
    exact .inl ⟨u, more, by rw [eq, eq_of_contains_single inside], broken, rfl⟩
  · obtain ⟨u, broken, behind⟩ := Option.bind_eq_some_iff.mp next
    obtain ⟨more, marker, rfl⟩ := Option.map_eq_some_iff.mp behind
    obtain ⟨y, eq, inside⟩ := behind?_eq_some marker
    exact .inr ⟨u, more, broken, by rw [eq, eq_of_contains_single inside], rfl⟩

theorem length_behindBreak? (broken : behindBreak? t = some rest) : rest.length < t.length := by
  obtain ⟨eq, nonempty⟩ := behindBreak?_eq_some broken
  have positive := List.length_pos_iff.mpr nonempty
  have length := congrArg List.length eq
  rw [List.length_append] at length
  omega

theorem length_behindMarker? (read : behindMarker? t = some rest) : rest.length + 2 ≤ t.length := by
  have dropped (u : Text) : (u.dropWhile isBlank).length ≤ u.length := (List.dropWhile_sublist isBlank).length_le
  have whole := dropped t
  rcases behindMarker?_cases read with ⟨u, more, marker, broken, rfl⟩ | ⟨u, more, broken, marker, rfl⟩
  · have shorter := length_behindBreak? broken
    have first := congrArg List.length marker
    rw [List.length_cons] at first
    have := dropped u
    have := dropped more
    omega
  · have shorter := length_behindBreak? broken
    have last := congrArg List.length marker
    rw [List.length_cons] at last
    have := dropped u
    have := dropped more
    omega

theorem length_pieces (t : Text) : (pieces t).length + (pieces t).count .marker ≤ t.length := by
  fun_induction pieces t with
  | case1 t rest read ih =>
    have := length_behindMarker? read
    rw [List.length_cons, List.count_cons_self]
    omega
  | case2 read => exact Nat.le_refl 0
  | case3 x rest read ih =>
    rw [List.length_cons, List.count_cons_of_ne (by simp), List.length_cons]
    omega

/-- A text is left as it is exactly if there is no marker in it. -/
theorem withoutContinuations_eq_self : withoutContinuations t = t ↔ .marker ∉ pieces t := by
  constructor
  · intro same
    have length := congrArg List.length same
    rw [withoutContinuations_eq, List.length_map] at length
    have := length_pieces t
    exact List.count_eq_zero.mp (by omega)
  · intro absent
    fun_induction pieces t with
    | case1 t rest read ih => exact absurd List.mem_cons_self absent
    | case2 read => rw [withoutContinuations_eq, pieces_nil, List.map_nil]
    | case3 x rest read ih =>
      have later := ih fun member => absent (List.mem_cons_of_mem _ member)
      rw [withoutContinuations_eq, pieces_kept read, List.map_cons, ← withoutContinuations_eq, later, Piece.shown]

/-! ### Where a marker is in a text -/

/-- Whether there is a backslash before a line break, or a plus sign behind one, with at most blanks in between. -/
def Marked (t : Text) : Prop :=
  ∃ front w x back, (∀ y ∈ w, isBlank y = true) ∧ isLineBreak x = true ∧
    (t = front ++ '\\' :: (w ++ x :: back) ∨ t = front ++ x :: (w ++ '+' :: back))

theorem behindBreak?_break (broken : isLineBreak x = true) (single : t.head? ≠ some '\n') :
    behindBreak? (x :: t) = some t := by
  have whole : firstTerminator (x :: t) = [x] := by
    simp only [isLineBreak, Bool.or_eq_true, beq_iff_eq] at broken
    rcases broken with rfl | rfl
    · rfl
    · exact firstTerminator_return single
  rw [behindBreak?, whole, if_neg (List.cons_ne_nil x [])]
  rfl

theorem exists_behindBreak? (broken : isLineBreak x = true) (t : Text) : ∃ rest, behindBreak? (x :: t) = some rest := by
  have nonempty : firstTerminator (x :: t) ≠ [] := by
    unfold firstTerminator
    split
    · exact List.cons_ne_nil _ _
    · next heq =>
      obtain ⟨rfl, _⟩ := List.cons.inj heq
      simp [broken]
    · next heq => cases heq
  exact ⟨_, if_neg nonempty⟩

theorem exists_break_before (read : behindBreak? t = some rest) :
    ∃ front x, t = front ++ x :: rest ∧ isLineBreak x = true := by
  obtain ⟨eq, broken⟩ := behindBreak?_eq_some read
  rcases firstTerminator_cases broken with ⟨more, rfl⟩ | ⟨more, rfl⟩ | ⟨more, rfl, single⟩
  · exact ⟨['\r'], '\n', eq, rfl⟩
  · exact ⟨[], '\n', eq, rfl⟩
  · rw [firstTerminator_return single] at eq
    exact ⟨[], '\r', eq, rfl⟩

theorem exists_dropWhile (t : Text) : ∃ w, (∀ y ∈ w, isBlank y = true) ∧ t = w ++ t.dropWhile isBlank :=
  ⟨t.takeWhile isBlank, fun _ member => List.mem_takeWhile_imp member, List.takeWhile_append_dropWhile.symm⟩

theorem behindMarker?_backslash {w back : Text} (blank : ∀ y ∈ w, isBlank y = true) (broken : isLineBreak x = true) :
    behindMarker? ('\\' :: (w ++ x :: back)) ≠ none := by
  obtain ⟨rest, read⟩ := exists_behindBreak? broken back
  have marker : solid ('\\' :: w) = ['\\'] := congrArg (List.cons '\\') (solid_eq_nil.mpr blank)
  rw [← List.cons_append, behindMarker?_current marker read]
  exact Option.some_ne_none _

theorem behindMarker?_plus {w back : Text} (blank : ∀ y ∈ w, isBlank y = true) (broken : isLineBreak x = true) :
    behindMarker? (x :: (w ++ '+' :: back)) ≠ none := by
  have single : (w ++ '+' :: back).head? ≠ some '\n' := by
    cases w with
    | nil => simp
    | cons y w =>
      intro feed
      obtain rfl := Option.some.inj feed
      exact absurd (blank _ List.mem_cons_self) (by decide)
  have marked : (w ++ '+' :: back).dropWhile isBlank = '+' :: back := by
    rw [List.dropWhile_append_of_pos blank]
    rfl
  have found := behindMarker?_next (v := []) rfl (behindBreak?_break broken single) marked
  rw [List.nil_append] at found
  rw [found]
  exact Option.some_ne_none _

theorem exists_marker_iff : (∃ u, u <:+ t ∧ behindMarker? u ≠ none) ↔ Marked t := by
  constructor
  · rintro ⟨u, ⟨before, rfl⟩, found⟩
    obtain ⟨rest, read⟩ := Option.ne_none_iff_exists'.mp found
    obtain ⟨gap, _, whole⟩ := exists_dropWhile u
    rcases behindMarker?_cases read with ⟨v, more, marker, broken, _⟩ | ⟨v, more, broken, marker, _⟩
    · obtain ⟨w, blank, behind⟩ := exists_dropWhile v
      obtain ⟨y, others, starts, breaks⟩ := exists_break broken
      refine ⟨before ++ gap, w, y, others, blank, breaks, .inl ?_⟩
      rw [whole, marker, behind, starts, List.append_assoc]
    · obtain ⟨w, blank, behind⟩ := exists_dropWhile v
      obtain ⟨front, y, starts, breaks⟩ := exists_break_before broken
      refine ⟨before ++ gap ++ front, w, y, more, blank, breaks, .inr ?_⟩
      rw [whole, starts, behind, marker]
      simp
  · rintro ⟨front, w, x, back, blank, broken, rfl | rfl⟩
    · exact ⟨_, List.suffix_append front _, behindMarker?_backslash blank broken⟩
    · exact ⟨_, List.suffix_append front _, behindMarker?_plus blank broken⟩

/-! ### What the pass brings together -/

/-- Whether markers that are replaced have stood between the parts of another one. -/
def BringsTogether (ps : List Piece) : Prop :=
  ∃ front n x back, isLineBreak x = true ∧
    (ps = front ++ .kept '\\' :: (List.replicate (n + 1) .marker ++ .kept x :: back) ∨
      ps = front ++ .kept x :: (List.replicate (n + 1) .marker ++ .kept '+' :: back))

theorem not_isBlank_of_isLineBreak (broken : isLineBreak x = true) : isBlank x = false := by
  rw [Bool.eq_false_iff]
  intro blank
  rw [not_isLineBreak_of_isBlank blank] at broken
  cases broken

/-- What comes behind a marker is no blank. -/
theorem behindMarker?_not_blank (read : behindMarker? t = some (x :: rest)) : isBlank x = false := by
  have dropped : ∃ u : Text, u.dropWhile isBlank = x :: rest := by
    rcases behindMarker?_cases read with ⟨_, more, _, _, eq⟩ | ⟨_, more, _, _, eq⟩ <;> exact ⟨more, eq.symm⟩
  obtain ⟨u, eq⟩ := dropped
  have head := List.head?_dropWhile_not isBlank u
  rw [eq] at head
  simpa using head

/-- Pieces that show blanks are all markers, or all kept: a marker takes the blanks around it. -/
theorem blank_pieces {middle : List Piece} (eq : pieces t = middle ++ p :: back)
    (blank : ∀ q ∈ middle, isBlank q.shown = true) :
    (∃ n, middle = List.replicate (n + 1) .marker) ∨
      ∃ w u, middle = w.map .kept ∧ (∀ y ∈ w, isBlank y = true) ∧ t = w ++ u ∧ pieces u = p :: back := by
  induction middle generalizing t with
  | nil => exact .inr ⟨[], t, rfl, nofun, rfl, eq⟩
  | cons q middle ih =>
    obtain ⟨here, later⟩ := List.forall_mem_cons.mp blank
    rcases exists_piece eq with ⟨rest, read, rfl, behind⟩ | ⟨y, rest, read, rfl, rfl, behind⟩
    · rcases ih behind later with ⟨n, rfl⟩ | ⟨w, u, rfl, blank', rfl, behind'⟩
      · exact .inl ⟨n + 1, rfl⟩
      · cases w with
        | nil => exact .inl ⟨0, rfl⟩
        | cons z w =>
          -- The marker would have taken the blank behind it.
          rw [List.cons_append] at read
          exact absurd (blank' z List.mem_cons_self) (by rw [behindMarker?_not_blank read]; exact Bool.false_ne_true)
    · rw [Piece.shown] at here
      rcases ih behind later with ⟨n, rfl⟩ | ⟨w, u, rfl, blank', rfl, behind'⟩
      · -- The marker would have taken the blank before it.
        rcases exists_piece behind with ⟨_, read', _⟩ | ⟨_, _, _, _, no, _⟩
        · rw [behindMarker?_blank here, read'] at read
          cases read
        · cases no
      · exact .inr ⟨y :: w, u, rfl, List.forall_mem_cons.mpr ⟨here, blank'⟩, rfl, behind'⟩

/-- What is kept and only blanks apart in the text that is left has markers in between, or was so before. -/
theorem kept_apart {a b : Char} {front w back : Text} (solid_left : isBlank a = false) (solid_right : isBlank b = false)
    (blank : ∀ y ∈ w, isBlank y = true) (eq : (pieces t).map Piece.shown = front ++ a :: (w ++ b :: back)) :
    (∃ front n back, pieces t = front ++ .kept a :: (List.replicate (n + 1) .marker ++ .kept b :: back)) ∨
      ∃ w u, (∀ y ∈ w, isBlank y = true) ∧ behindMarker? (a :: (w ++ b :: u)) = none := by
  obtain ⟨front, _, whole, _, from_left⟩ := List.map_eq_append_iff.mp eq
  obtain ⟨p, _, rfl, left, between⟩ := List.map_eq_cons_iff.mp from_left
  obtain ⟨middle, _, rfl, rfl, from_right⟩ := List.map_eq_append_iff.mp between
  obtain ⟨q, back, rfl, right, _⟩ := List.map_eq_cons_iff.mp from_right
  obtain rfl := Piece.shown_eq left solid_left
  obtain rfl := Piece.shown_eq right solid_right
  obtain ⟨u, _, same⟩ := exists_suffix whole
  rcases exists_piece same with ⟨_, _, no, _⟩ | ⟨x, rest, read, rfl, kept, behind⟩
  · cases no
  cases kept
  rcases blank_pieces behind (List.forall_mem_map.mp blank) with ⟨n, rfl⟩ | ⟨w, u, rfl, blank, rfl, last⟩
  · exact .inl ⟨front, n, back, whole⟩
  · rcases exists_piece last with ⟨_, _, no, _⟩ | ⟨y, rest, _, rfl, kept, _⟩
    · cases no
    · cases kept
      exact .inr ⟨w, rest, blank, read⟩

theorem marked_pieces_iff (t : Text) : Marked ((pieces t).map Piece.shown) ↔ BringsTogether (pieces t) := by
  constructor
  · rintro ⟨front, w, x, back, blank, broken, eq | eq⟩
    · rcases kept_apart rfl (not_isBlank_of_isLineBreak broken) blank eq with ⟨front, n, back, eq⟩ | ⟨w, u, blank, read⟩
      · exact ⟨front, n, x, back, broken, .inl eq⟩
      · exact absurd read (behindMarker?_backslash blank broken)
    · rcases kept_apart (not_isBlank_of_isLineBreak broken) rfl blank eq with ⟨front, n, back, eq⟩ | ⟨w, u, blank, read⟩
      · exact ⟨front, n, x, back, broken, .inr eq⟩
      · exact absurd read (behindMarker?_plus blank broken)
  · rintro ⟨front, n, x, back, broken, eq | eq⟩
    · refine ⟨front.map Piece.shown, List.replicate (n + 1) ' ', x, back.map Piece.shown, ?_, broken, .inl ?_⟩
      · exact fun y member => by rw [List.eq_of_mem_replicate member]; rfl
      · simp [eq, Piece.shown]
    · refine ⟨front.map Piece.shown, List.replicate (n + 1) ' ', x, back.map Piece.shown, ?_, broken, .inr ?_⟩
      · exact fun y member => by rw [List.eq_of_mem_replicate member]; rfl
      · simp [eq, Piece.shown]

/-- What is left of a text when its markers are replaced is what the pass keeps, with a space for each marker. It has
a marker, and is not settled, exactly if markers have stood between the parts of one: between a backslash and a
line break, or between a line break and a plus sign, which are kept. -/
theorem markers_remain_iff (t : Text) :
    withoutContinuations t = (pieces t).map Piece.shown ∧
      (continuationMarker.findEnd? (withoutContinuations t) = none ↔ ¬ BringsTogether (pieces t)) ∧
      (withoutContinuations (withoutContinuations t) = withoutContinuations t ↔ ¬ BringsTogether (pieces t)) := by
  have remains : .marker ∈ pieces (withoutContinuations t) ↔ BringsTogether (pieces t) := by
    rw [marker_mem_pieces, exists_marker_iff, withoutContinuations_eq, marked_pieces_iff]
  refine ⟨withoutContinuations_eq t, ?_, ?_⟩
  · rw [findEnd?_eq_none, remains]
  · rw [withoutContinuations_eq_self, remains]

/-- A sum over three lines in braces. A line break is kept, and the plus sign behind the marker is taken for another
marker when markers are replaced again, as they are in a lexeme in braces. -/
theorem markers_remain :
    let t := chars "\x7b1\n\n++2\x7d"
    let token : Lexer.Token Kind :=
      { kind := .expressionBracket, lexeme := withoutContinuations t, raw := t, start := 0, stop := 8, line := 1, column := 1 }
    (continuationMarker.findEnd? (withoutContinuations t)).isSome = true ∧
      withoutContinuations (withoutContinuations t) ≠ withoutContinuations t ∧
      inside? '\x7b' '\x7d' token.lexeme = some (chars "1\n +2") ∧ expressionText token = chars "1 2" := by
  decide +kernel

end Netlist.Spice
