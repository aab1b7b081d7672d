import Netlist.Proofs.Pattern.Reach

/-!
Which match is preferred. The first end of a sequence is a first end of its second part, and a repetition
of a set takes every character that it can.
-/
namespace Netlist

namespace Cursor

theorem head?_merge {first second : List Cursor} {e : Cursor} (head : (merge first second).head? = some e) :
    first.head? = some e ∨ first = [] ∧ second.head? = some e := by
  cases first with
  | nil =>
    have all : merge [] second = second := List.filter_eq_self.mpr fun _ _ => rfl
    exact .inr ⟨rfl, all ▸ head⟩
  | cons d first => exact .inl head

theorem head?_merge_left {first second : List Cursor} {e : Cursor} (head : first.head? = some e) :
    (merge first second).head? = some e := by
  obtain ⟨rest, rfl⟩ := List.head?_eq_some_iff.mp head
  rfl

theorem merge_ne_nil_right {first second : List Cursor} (nonempty : second ≠ []) : merge first second ≠ [] := by
  obtain ⟨e, second, rfl⟩ := List.exists_cons_of_ne_nil nonempty
  cases first with
  | nil => exact List.cons_ne_nil _ _
  | cons d first => exact List.cons_ne_nil _ _

theorem head?_collect {f : Cursor → List Cursor} {cs : List Cursor} {e : Cursor} (head : (collect f cs).head? = some e) :
    ∃ c ∈ cs, (f c).head? = some e := by
  induction cs with
  | nil => cases head
  | cons c cs ih =>
    rcases head?_merge head with here | ⟨_, later⟩
    · exact ⟨c, List.mem_cons_self, here⟩
    · obtain ⟨d, member, first⟩ := ih later
      exact ⟨d, List.mem_cons_of_mem _ member, first⟩

theorem head?_collect_first {f : Cursor → List Cursor} {cs : List Cursor} {c e : Cursor} (first : cs.head? = some c)
    (head : (f c).head? = some e) : (collect f cs).head? = some e := by
  obtain ⟨rest, rfl⟩ := List.head?_eq_some_iff.mp first
  exact head?_merge_left head

theorem collect_eq_nil {f : Cursor → List Cursor} {cs : List Cursor} (stuck : ∀ c ∈ cs, f c = []) : collect f cs = [] := by
  refine List.head?_eq_none_iff.mp (Option.eq_none_iff_forall_not_mem.mpr fun e head => ?_)
  obtain ⟨c, member, first⟩ := head?_collect head
  rw [stuck c member] at first
  cases first

end Cursor

namespace Pattern
open Cursor

theorem ends_set_mem {s : CharSet} {c : Cursor} {x : Char} {rest : Text} (eq : c.rest = x :: rest)
    (inside : s.contains x = true) : (set s).ends c = [⟨some x, rest, c.offset + 1⟩] := by
  unfold ends
  rw [eq]
  exact if_pos inside

theorem ends_set_not_mem {s : CharSet} {c : Cursor} (outside : ∀ x, c.rest.head? = some x → s.contains x = false) :
    (set s).ends c = [] := by
  unfold ends
  split
  · next x rest eq => rw [if_neg (by simp [outside x (by rw [eq]; rfl)])]
  · rfl

/-- The last of the rounds that are listed takes all characters of the set. -/
theorem rounds_set_getLast? (s : CharSet) {fuel : Nat} {c : Cursor} (room : c.rest.length ≤ fuel) :
    ∃ e, (rounds (set s).ends true fuel c []).getLast? = some e ∧ Spans (c.rest.takeWhile s.contains) c e := by
  induction fuel generalizing c with
  | zero =>
    have nothing := List.length_eq_zero_iff.mp (Nat.le_zero.mp room)
    refine ⟨c, by simp [rounds], ?_⟩
    rw [nothing]
    exact .here c
  | succ fuel ih =>
    cases eq : c.rest with
    | nil =>
      have stuck : (set s).ends c = [] := ends_set_not_mem (by simp [eq])
      exact ⟨c, by simp [rounds, stuck], .here c⟩
    | cons x rest =>
      cases inside : s.contains x with
      | false =>
        have stuck : (set s).ends c = [] := ends_set_not_mem (by simp [eq, inside])
        refine ⟨c, by simp [rounds, stuck], ?_⟩
        rw [List.takeWhile_cons_of_neg (by simp [inside])]
        exact .here c
      | true =>
        have moves := ends_set_mem eq inside
        have shorter : rest.length ≤ fuel := by
          rw [eq, List.length_cons] at room
          omega
        obtain ⟨e, last, spans⟩ := ih (c := ⟨some x, rest, c.offset + 1⟩) shorter
        have first : Spans [x] c ⟨some x, rest, c.offset + 1⟩ := ⟨eq, rfl, rfl⟩
        refine ⟨e, ?_, ?_⟩
        · simp [rounds, moves, List.getLast?_cons, last]
        · rw [List.takeWhile_cons_of_pos inside]
          exact first.trans spans

theorem atLeastOnce_set_head? {s : CharSet} {c : Cursor} {x : Char} {rest : Text} (eq : c.rest = x :: rest)
    (inside : s.contains x = true) :
    ∃ e, (atLeastOnce (set s).ends true c).head? = some e ∧ Spans (c.rest.takeWhile s.contains) c e := by
  obtain ⟨e, last, spans⟩ := rounds_set_getLast? s (c := ⟨some x, rest, c.offset + 1⟩) (Nat.le_refl _)
  have moves := ends_set_mem eq inside
  have first : Spans [x] c ⟨some x, rest, c.offset + 1⟩ := ⟨eq, rfl, rfl⟩
  refine ⟨e, head?_collect_first (congrArg List.head? moves) ?_, ?_⟩
  · rw [if_pos (Nat.lt_succ_self _), List.head?_reverse, last]
  · rw [eq, List.takeWhile_cons_of_pos inside]
    exact first.trans spans

theorem oneOrMore_set_head? {s : CharSet} {c : Cursor} {x : Char} {rest : Text} (eq : c.rest = x :: rest)
    (inside : s.contains x = true) :
    ∃ e, ((oneOrMore (set s)).ends c).head? = some e ∧ Spans (c.rest.takeWhile s.contains) c e := by
  obtain ⟨e, head, spans⟩ := atLeastOnce_set_head? eq inside
  exact ⟨e, head?_collect_first rfl head, spans⟩

theorem many_set_head? (s : CharSet) (c : Cursor) :
    ∃ e, ((many (set s)).ends c).head? = some e ∧ Spans (c.rest.takeWhile s.contains) c e := by
  have none (outside : ∀ x, c.rest.head? = some x → s.contains x = false) :
      ((many (set s)).ends c).head? = some c := by
    have stuck : atLeastOnce (set s).ends true c = [] := by
      rw [atLeastOnce, ends_set_not_mem outside]
      rfl
    change (merge (atLeastOnce (set s).ends true c) [c]).head? = some c
    rw [stuck]
    rfl
  cases eq : c.rest with
  | nil => exact ⟨c, none (by simp [eq]), .here c⟩
  | cons x rest =>
    cases inside : s.contains x with
    | false =>
      rw [List.takeWhile_cons_of_neg (by simp [inside])]
      exact ⟨c, none (by simp [eq, inside]), .here c⟩
    | true =>
      obtain ⟨e, head, spans⟩ := atLeastOnce_set_head? eq inside
      exact ⟨e, head?_merge_left head, eq ▸ spans⟩

end Pattern

end Netlist
