import Netlist.Lexer.Balance

/-!
Balanced groups by what they hold. The scan that counts how deep a text is inside of groups finds the shortest
beginning of it that holds as many closing as opening characters, and finds none only where there is none.
-/
namespace Netlist.Lexer

variable {opening closing x : Char} {depth n : Nat} {t rest w : Text}

/-- A group at the start of a text: it opens there, and it is the shortest beginning, apart from the empty one,
in which opening and closing characters balance. -/
structure Group (opening closing : Char) (t w : Text) : Prop where
  beginning : w <+: t
  opens : w.head? = some opening
  balances : w.count opening = w.count closing
  shortest : ∀ v, v <+: t → v ≠ [] → v.count opening = v.count closing → w.length ≤ v.length

/-- Whether a text leads out of as many groups as it is inside of where it begins. -/
def Leaves (opening closing : Char) (depth : Nat) (w : Text) : Prop := depth + w.count opening = w.count closing

theorem not_leaves_nil (inside : 0 < depth) : ¬ Leaves opening closing depth [] := by
  simp [Leaves, Nat.ne_of_gt inside]

/-- One step of the scan inside of a group: it ends here, or it goes on as deep as the character leads. -/
theorem balancedLength?_cons (apart : opening ≠ closing) (inside : 0 < depth) (x : Char) (rest : Text) :
    (balancedLength? opening closing depth (x :: rest) = some 1 ∧ Leaves opening closing depth [x]) ∨
    ∃ deeper, 0 < deeper ∧
      balancedLength? opening closing depth (x :: rest) = (balancedLength? opening closing deeper rest).map (· + 1) ∧
      ∀ w, Leaves opening closing depth (x :: w) ↔ Leaves opening closing deeper w := by
  simp only [balancedLength?, Leaves, List.count_cons]
  by_cases opens : x = opening
  · subst opens
    refine .inr ⟨depth + 1, Nat.succ_pos depth, if_pos rfl, fun w => ?_⟩
    simp only [beq_self_eq_true, if_true, beq_iff_eq, apart, if_false]
    omega
  · by_cases closes : x = closing
    · subst closes
      simp only [opens, if_false, if_true, beq_self_eq_true, beq_iff_eq, List.count_nil]
      by_cases outermost : depth ≤ 1
      · exact .inl ⟨if_pos outermost, by omega⟩
      · exact .inr ⟨depth - 1, by omega, if_neg outermost, fun w => by omega⟩
    · refine .inr ⟨depth, inside, ?_, fun w => ?_⟩ <;> simp [opens, closes]

/-- Inside of a group the scan ends as soon as it has left the group. -/
theorem leaves_of_balancedLength? (apart : opening ≠ closing) (inside : 0 < depth)
    (found : balancedLength? opening closing depth t = some n) : Leaves opening closing depth (t.take n) := by
  induction t generalizing depth n with
  | nil => cases found
  | cons x rest ih =>
    rcases balancedLength?_cons apart inside x rest with ⟨ends, leaves⟩ | ⟨deeper, inside, goes, same⟩
    · obtain rfl := Option.some.inj (ends.symm.trans found)
      exact leaves
    · obtain ⟨m, later, rfl⟩ := Option.map_eq_some_iff.mp (goes.symm.trans found)
      exact (same _).mpr (ih inside later)

/-- Before its end, or anywhere if it has none, the scan has not left the group. -/
theorem not_leaves_of_balancedLength? (apart : opening ≠ closing) (inside : 0 < depth) (beginning : w <+: t)
    (before : ∀ n, balancedLength? opening closing depth t = some n → w.length < n) : ¬ Leaves opening closing depth w := by
  induction t generalizing depth w with
  | nil =>
    rw [List.prefix_nil.mp beginning]
    exact not_leaves_nil inside
  | cons x rest ih =>
    rcases List.prefix_cons_iff.mp beginning with rfl | ⟨w, rfl, further⟩
    · exact not_leaves_nil inside
    · rcases balancedLength?_cons apart inside x rest with ⟨ends, -⟩ | ⟨deeper, inside, goes, same⟩
      · have less := before 1 ends
        rw [List.length_cons] at less
        omega
      · rw [same]
        refine ih inside further fun n found => ?_
        exact Nat.lt_of_succ_lt_succ (before (n + 1) (by rw [goes, found]; rfl))

/-- Behind an opening character the text is inside of one group. -/
theorem leaves_cons_opening (apart : opening ≠ closing) :
    Leaves opening closing 1 w ↔ (opening :: w).count opening = (opening :: w).count closing := by
  simp only [Leaves, List.count_cons, beq_self_eq_true, if_true, beq_iff_eq, apart, if_false]
  omega

theorem balancedLength?_opening (opening closing : Char) (rest : Text) :
    balancedLength? opening closing 0 (opening :: rest) = (balancedLength? opening closing 1 rest).map (· + 1) := by
  rw [balancedLength?, if_pos rfl]

/-- The scan from an opening character on finds a group. -/
theorem group_of_balancedLength? (apart : opening ≠ closing) (head : t.head? = some opening)
    (found : balancedLength? opening closing 0 t = some n) : Group opening closing t (t.take n) := by
  obtain ⟨rest, rfl⟩ := List.head?_eq_some_iff.mp head
  rw [balancedLength?_opening] at found
  obtain ⟨n, inner, rfl⟩ := Option.map_eq_some_iff.mp found
  refine ⟨List.take_prefix _ _, rfl, (leaves_cons_opening apart).mp (leaves_of_balancedLength? apart Nat.one_pos inner), ?_⟩
  intro v beginning nonempty balances
  obtain ⟨u, rfl, further⟩ := (List.prefix_cons_iff.mp beginning).resolve_left nonempty
  refine Nat.le_of_not_lt fun shorter => ?_
  refine not_leaves_of_balancedLength? apart Nat.one_pos further (fun m here => ?_) ((leaves_cons_opening apart).mpr balances)
  obtain rfl := Option.some.inj (inner.symm.trans here)
  rw [List.take_succ_cons, List.length_cons, List.length_cons, List.length_take] at shorter
  omega

/-- Where the scan finds nothing, no group begins. -/
theorem not_group_of_balancedLength? (apart : opening ≠ closing)
    (absent : balancedLength? opening closing 0 t = none) (w : Text) : ¬ Group opening closing t w := by
  intro group
  obtain ⟨v, rfl⟩ := List.head?_eq_some_iff.mp group.opens
  obtain ⟨more, rfl⟩ := group.beginning
  rw [List.cons_append, balancedLength?_opening, Option.map_eq_none_iff] at absent
  refine not_leaves_of_balancedLength? apart Nat.one_pos (List.prefix_append v more) (fun n found => ?_)
    ((leaves_cons_opening apart).mpr group.balances)
  rw [absent] at found
  cases found

theorem Group.length (apart : opening ≠ closing) (group : Group opening closing t w) : 1 < w.length := by
  obtain ⟨v, rfl⟩ := List.head?_eq_some_iff.mp group.opens
  have inner := (leaves_cons_opening apart).mpr group.balances
  cases v with
  | nil => exact absurd inner (not_leaves_nil Nat.one_pos)
  | cons x v => simp

end Netlist.Lexer
