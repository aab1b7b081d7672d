import Netlist.Proofs.Pattern.Greedy

/-!
Patterns that read like a parser: a function of the text alone says where the preferred match ends, or that
there is none. Parts are put together where no later part makes an earlier one give way.
-/
namespace Netlist.Pattern
open Cursor

/-- The preferred match of a pattern leaves what a reader leaves of the text, and there is one if the reader
accepts the text. -/
structure Reads (p : Pattern) (f : Text → Option Text) : Prop where
  found : ∀ {c : Cursor} {rest : Text}, f c.rest = some rest → ∃ e, (p.ends c).head? = some e ∧ e.rest = rest
  absent : ∀ {c : Cursor}, f c.rest = none → p.ends c = []

def behind? (s : CharSet) : Text → Option Text
  | [] => none
  | x :: rest => if s.contains x then some rest else none

variable {p q : Pattern} {s : CharSet} {f g : Text → Option Text} {t rest : Text}

theorem behind?_cons (s : CharSet) (x : Char) (t : Text) : behind? s (x :: t) = if s.contains x then some t else none := rfl

theorem behind?_eq_some (read : behind? s t = some rest) : ∃ x, t = x :: rest ∧ s.contains x = true := by
  cases t with
  | nil => cases read
  | cons x t =>
    rw [behind?] at read
    split at read
    · next inside => exact ⟨x, by rw [Option.some.inj read], inside⟩
    · cases read

theorem behind?_eq_none (read : behind? s t = none) : ∀ x, t.head? = some x → s.contains x = false := by
  cases t with
  | nil => exact nofun
  | cons x t =>
    intro y first
    obtain rfl := Option.some.inj first
    rw [behind?] at read
    split at read
    · cases read
    · next outside => simpa using outside

theorem ends_set_behind? {c : Cursor} (read : behind? s c.rest = some rest) :
    ∃ d, (set s).ends c = [d] ∧ d.rest = rest ∧ d.offset ≠ c.offset := by
  obtain ⟨x, eq, inside⟩ := behind?_eq_some read
  exact ⟨_, ends_set_mem eq inside, rfl, Nat.succ_ne_self _⟩

theorem ends_optional (p : Pattern) (c : Cursor) :
    (optional p).ends c = merge (collect (fun d => [d]) (p.ends c)) [c] := merge_nil _

theorem rest_of_takeWhile {c e : Cursor} (spans : Spans (c.rest.takeWhile s.contains) c e) :
    e.rest = c.rest.dropWhile s.contains := by
  have split := List.takeWhile_append_dropWhile (p := s.contains) (l := c.rest)
  exact List.append_cancel_left (spans.rest.symm.trans split.symm)

namespace Reads

theorem congr (reads : p.Reads f) (same : ∀ t, f t = g t) : p.Reads g := by
  obtain rfl : f = g := funext same
  exact reads

theorem ofSet (s : CharSet) : (set s).Reads (behind? s) where
  found read := by
    obtain ⟨d, ends, rest, _⟩ := ends_set_behind? read
    exact ⟨d, congrArg List.head? ends, rest⟩
  absent read := ends_set_not_mem (behind?_eq_none read)

/-- A second part that is never refused behind the first one. -/
theorem seq (first : p.Reads f) (second : q.Reads g) (total : ∀ t rest, f t = some rest → g rest ≠ none) :
    (seq p q).Reads fun t => (f t).bind g where
  found read := by
    obtain ⟨middle, before, behind⟩ := Option.bind_eq_some_iff.mp read
    obtain ⟨d, head, rfl⟩ := first.found before
    obtain ⟨e, head', left⟩ := second.found behind
    exact ⟨e, head?_collect_first head head', left⟩
  absent {c} read := by
    have nowhere : p.ends c = [] := by
      apply first.absent
      rcases before : f c.rest with _ | middle
      · rfl
      · rw [before] at read
        exact absurd read (total _ _ before)
    rw [ends, nowhere]
    rfl

/-- One character has no other match to fall back to. -/
theorem setThen (second : q.Reads g) : (Pattern.seq (.set s) q).Reads fun t => (behind? s t).bind g where
  found read := by
    obtain ⟨middle, before, behind⟩ := Option.bind_eq_some_iff.mp read
    obtain ⟨d, ends, rfl, _⟩ := ends_set_behind? before
    obtain ⟨e, head, left⟩ := second.found behind
    exact ⟨e, head?_collect_first (congrArg List.head? ends) head, left⟩
  absent {c} read := by
    rw [ends]
    rcases before : behind? s c.rest with _ | middle
    · rw [(ofSet s).absent before]
      rfl
    · obtain ⟨d, ends, rfl, _⟩ := ends_set_behind? before
      rw [before] at read
      rw [ends, collect, second.absent read]
      rfl

/-- One character that may be missing; what comes behind it cannot begin with it. -/
theorem optionalSetThen (second : q.Reads g) (apart : ∀ x t, s.contains x = true → g (x :: t) = none) :
    (Pattern.seq (optional (.set s)) q).Reads fun t => g ((behind? s t).getD t) := by
  have same (c : Cursor) : ∃ d, (Pattern.seq (optional (.set s)) q).ends c = q.ends d ∧ d.rest = (behind? s c.rest).getD c.rest := by
    rw [ends, ends_optional]
    rcases before : behind? s c.rest with _ | middle
    · rw [(ofSet s).absent before]
      exact ⟨c, merge_nil _, rfl⟩
    · obtain ⟨d, ends, rest, apart'⟩ := ends_set_behind? before
      obtain ⟨x, eq, inside⟩ := behind?_eq_some before
      have refused : q.ends c = [] := second.absent (by rw [eq]; exact apart x middle inside)
      have both : merge (collect (fun d => [d]) [d]) [c] = [d, c] := by simp [collect, merge, apart']
      refine ⟨d, ?_, rest⟩
      rw [ends, both, collect, collect, collect, refused]
      simp [merge]
  refine ⟨fun {c} rest read => ?_, fun {c} read => ?_⟩
  · obtain ⟨d, eq, left⟩ := same c
    rw [eq]
    exact second.found (by rw [left]; exact read)
  · obtain ⟨d, eq, left⟩ := same c
    rw [eq]
    exact second.absent (by rw [left]; exact read)

/-- All characters of a set; what comes behind them cannot begin with one of them. -/
theorem manyThen (second : q.Reads g) (apart : ∀ x t, s.contains x = true → g (x :: t) = none) :
    (Pattern.seq (Pattern.many (.set s)) q).Reads fun t => g (t.dropWhile s.contains) where
  found {c rest} read := by
    obtain ⟨d, head, spans⟩ := many_set_head? s c
    rw [← rest_of_takeWhile spans] at read
    obtain ⟨e, head', left⟩ := second.found read
    exact ⟨e, head?_collect_first head head', left⟩
  absent {c} read := by
    refine collect_eq_nil fun d member => ?_
    obtain ⟨w, spans, consumes⟩ := (reaches_of_mem_ends member).consumes
    have swallowed : ∀ x ∈ w, s.contains x = true := consumes.inside
    rw [spans.rest, List.dropWhile_append_of_pos swallowed] at read
    apply second.absent
    cases eq : d.rest with
    | nil => rwa [eq] at read
    | cons x t =>
      cases inside : s.contains x with
      | true => exact apart x t inside
      | false => rwa [eq, List.dropWhile_cons_of_neg (by simp [inside])] at read

theorem alt (left : p.Reads f) (right : q.Reads g) : (alt p q).Reads fun t => (f t).or (g t) where
  found read := by
    rcases Option.or_eq_some_iff.mp read with here | ⟨absent, there⟩
    · obtain ⟨e, head, rest⟩ := left.found here
      exact ⟨e, head?_merge_left head, rest⟩
    · obtain ⟨e, head, rest⟩ := right.found there
      obtain ⟨others, eq⟩ := List.head?_eq_some_iff.mp head
      refine ⟨e, ?_, rest⟩
      rw [ends, left.absent absent, eq]
      rfl
  absent read := by
    obtain ⟨absent, absent'⟩ := Option.or_eq_none_iff.mp read
    rw [ends, left.absent absent, right.absent absent']
    rfl

theorem optional (reads : p.Reads f) : (optional p).Reads fun t => some ((f t).getD t) where
  found {c rest} read := by
    obtain rfl := Option.some.inj read
    rw [ends_optional]
    rcases here : f c.rest with _ | rest
    · rw [reads.absent here]
      exact ⟨c, rfl, rfl⟩
    · obtain ⟨e, head, left⟩ := reads.found here
      exact ⟨e, head?_merge_left (head?_collect_first head rfl), left⟩
  absent read := nomatch read

theorem many (s : CharSet) : (many (.set s)).Reads fun t => some (t.dropWhile s.contains) where
  found {c _} read := by
    obtain rfl := Option.some.inj read
    obtain ⟨e, head, spans⟩ := many_set_head? s c
    exact ⟨e, head, rest_of_takeWhile spans⟩
  absent read := nomatch read

theorem oneOrMore (s : CharSet) : (oneOrMore (.set s)).Reads fun t => (behind? s t).map (·.dropWhile s.contains) where
  found {c _} read := by
    obtain ⟨middle, before, rfl⟩ := Option.map_eq_some_iff.mp read
    obtain ⟨x, eq, inside⟩ := behind?_eq_some before
    obtain ⟨e, head, spans⟩ := oneOrMore_set_head? eq inside
    refine ⟨e, head, ?_⟩
    rw [rest_of_takeWhile spans, eq, List.dropWhile_cons_of_pos inside]
  absent {c} read := by
    have stuck : (Pattern.set s).ends c = [] := (ofSet s).absent (Option.map_eq_none_iff.mp read)
    change merge (atLeastOnce (Pattern.set s).ends true c) [] = []
    rw [atLeastOnce, stuck]
    rfl

/-- An optional part of which every character belongs to the set that is repeated behind it. -/
theorem optionalThenMany (inside : ∀ x, p.uses x = true → s.contains x = true) :
    (Pattern.seq (Pattern.optional p) (Pattern.many (.set s))).Reads fun t => some (t.dropWhile s.contains) where
  found {c rest} read := by
    obtain rfl := Option.some.inj read
    have nonempty : (Pattern.optional p).ends c ≠ [] := by
      rw [ends_optional]
      exact merge_ne_nil_right (List.cons_ne_nil c [])
    obtain ⟨d, others, eq⟩ := List.exists_cons_of_ne_nil nonempty
    have head : ((Pattern.optional p).ends c).head? = some d := congrArg List.head? eq
    obtain ⟨w, spans, consumes⟩ := (reaches_of_mem_ends (List.mem_of_mem_head? head)).consumes
    obtain ⟨e, head', left⟩ := (many s).found (c := d) rfl
    have swallowed : ∀ x ∈ w, s.contains x = true := fun x member => inside x (consumes.inside x member)
    refine ⟨e, head?_collect_first head head', ?_⟩
    rw [left, spans.rest, List.dropWhile_append_of_pos swallowed]
  absent read := nomatch read

theorem findEnd?_eq (reads : p.Reads f) (t : Text) : p.atStart.findEnd? t = (f t).map (t.length - ·.length) := by
  rw [findEnd?_atStart]
  rcases read : f t with _ | rest
  · rw [reads.absent (c := .start t) read]
    rfl
  · obtain ⟨e, head, rfl⟩ := reads.found (c := .start t) read
    obtain ⟨w, spans, _⟩ := (reaches_of_mem_ends (List.mem_of_mem_head? head)).consumes
    have offset : e.offset = w.length := spans.offset.trans (Nat.zero_add _)
    have text : t = w ++ e.rest := spans.rest
    have length : t.length - e.rest.length = w.length := by rw [text, List.length_append, Nat.add_sub_cancel]
    rw [head, Option.map_some, Option.map_some, offset, length]

theorem suffix (reads : p.Reads f) (read : f t = some rest) : rest <:+ t := by
  obtain ⟨e, head, rfl⟩ := reads.found (c := .start t) read
  obtain ⟨w, spans, _⟩ := (reaches_of_mem_ends (List.mem_of_mem_head? head)).consumes
  exact ⟨w, spans.rest.symm⟩

theorem shorter (reads : p.Reads f) (consuming : p.nullable = false) (read : f t = some rest) : rest.length < t.length := by
  obtain ⟨e, head, rfl⟩ := reads.found (c := .start t) read
  obtain ⟨w, spans, consumes⟩ := (reaches_of_mem_ends (List.mem_of_mem_head? head)).consumes
  have nonempty : w ≠ [] := fun empty => absurd (consumes.nullable empty) (by simp [consuming])
  have text : t = w ++ e.rest := spans.rest
  have positive := List.length_pos_iff.mpr nonempty
  rw [text, List.length_append]
  omega

end Reads

end Netlist.Pattern
