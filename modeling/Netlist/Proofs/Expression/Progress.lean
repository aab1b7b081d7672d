import Netlist.Proofs.Expression.Steps

/-!
Progress of the scan. An operand takes at least one character, an operator leaves the text as it
is or takes some of it, and after an operator an operand follows; so the scan ends before it runs
out of steps, and `Machine.proceed` is the scan without the bound.
-/
namespace Netlist.Machine
variable {σ α : Type}

private abbrev Anything : Fault → Prop := fun _ => True

private theorem ends_any (m : Eval σ α) : Eval.Ends m (fun _ => True) Anything := by
  intro s
  rcases m s with ⟨_ | _, _⟩ <;> trivial

private theorem ends_then {β : Type} {good : β → Prop} {m : Eval σ α} {k : α → Eval σ β}
    (next : ∀ a, Eval.Ends (k a) good Anything) : Eval.Ends (m >>= k) good Anything :=
  (ends_any m).bind fun a _ => next a

private theorem ends_raise {e : EvalError} {good : α → Prop} : Eval.Ends (Eval.raise e : Eval σ α) good Anything :=
  .raise trivial

private theorem reduceWhile_rest (r : Resolver σ) (m : Machine) (p : Operation → Bool) :
    Eval.Ends (m.reduceWhile r p) (fun m' => m'.expression = m.expression ∧ m'.rest = m.rest) Anything :=
  ends_then fun _ => .pure ⟨rfl, rfl⟩

private theorem finishCall_rest (r : Resolver σ) (m : Machine) (callee : Callee) (base : Nat) :
    Eval.Ends (m.finishCall r callee base) (fun m' => m'.expression = m.expression ∧ m'.rest = m.rest) Anything := by
  unfold finishCall
  split
  · exact ends_raise
  · dsimp only
    split
    · exact ends_then fun _ => .pure ⟨rfl, rfl⟩
    · split
      · exact .pure ⟨rfl, rfl⟩
      · exact ends_raise
    · exact ends_then fun _ => .pure ⟨rfl, rfl⟩

private theorem close_rest (r : Resolver σ) (m : Machine) :
    Eval.Ends (m.close r) (fun m' => m'.expression = m.expression ∧ m'.rest = m.rest) Anything := by
  refine (reduceWhile_rest r m _).bind fun m₁ ⟨expression, rest⟩ => ?_
  split
  · exact .pure ⟨expression, rest⟩
  · exact (finishCall_rest r _ _ _).mono fun m₂ same => ⟨same.1.trans expression, same.2.trans rest⟩
  · exact ends_raise
  · exact ends_raise

private theorem operand_progress (r : Resolver σ) {m : Machine} {t : Text} (at_token : m.rest = skip t) :
    Eval.Ends (m.operand r) (fun m' => m'.expression = m.expression ∧ Follows m'.rest t) Anything := by
  have step := operand_step r at_token
  generalize m.operand r = action at step ⊢
  cases step with
  | group opening => exact .pure ⟨rfl, suffix_of_skip_eq opening⟩
  | sign read => exact .pure ⟨rfl, sign?_follows read⟩
  | close closing _ =>
    exact (finishCall_rest r _ _ _).mono fun m' same => ⟨same.1, same.2 ▸ suffix_of_skip_eq closing⟩
  | reference read => exact ends_then fun _ => .pure ⟨rfl, reference?_follows read⟩
  | literal _ read => exact .pure ⟨rfl, (Number.literal_follows read).of_suffix (skip_suffix t)⟩
  | torn _ _ => exact fun _ => trivial
  | capture head _ read =>
    exact ends_then fun _ => .pure ⟨rfl, (captureArguments_follows read).of_suffix (callHead?_follows head).1⟩
  | call head _ => exact ends_then fun _ => .pure ⟨rfl, callHead?_follows head⟩
  | parameter read _ => exact ends_then fun _ => .pure ⟨rfl, identifier?_follows read⟩
  | failure e => exact ends_raise

private theorem operator_progress (r : Resolver σ) {m : Machine} {t : Text} (at_token : m.rest = skip t) :
    Eval.Ends (m.operator r) (fun m' => m'.expression = m.expression ∧ m'.rest <:+ t ∧
      (m'.expectOperator = true → Follows m'.rest t)) Anything := by
  have awaiting {m' : Machine} {op : Operation} : (m'.await op).expectOperator = true → Follows (m'.await op).rest t :=
    fun expects => by cases expects
  have step := operator_step r at_token
  generalize m.operator r = action at step ⊢
  cases step with
  | connective read =>
    exact (reduceWhile_rest r _ _).bind fun m' ⟨expression, same⟩ =>
      .pure ⟨expression, same ▸ connective?_suffix read, awaiting⟩
  | close delimits =>
    have behind := suffix_of_skip_eq delimits.2
    exact (close_rest r _).mono fun m' same => ⟨same.1, same.2 ▸ behind.1, fun _ => same.2 ▸ behind⟩
  | comma delimits =>
    have behind := suffix_of_skip_eq delimits.2
    refine (reduceWhile_rest r _ _).bind fun m' ⟨expression, same⟩ => ?_
    split
    · exact .pure ⟨expression, same ▸ behind.1, fun expects => by cases expects⟩
    · exact ends_raise
    · exact ends_raise
  | question delimits =>
    have behind := suffix_of_skip_eq delimits.2
    exact (reduceWhile_rest r _ _).bind fun m' ⟨expression, same⟩ => .pure ⟨expression, same ▸ behind.1, awaiting⟩
  | colon delimits =>
    have behind := suffix_of_skip_eq delimits.2
    refine (reduceWhile_rest r _ _).bind fun m' ⟨expression, same⟩ => ?_
    split
    · exact .pure ⟨expression, same ▸ behind.1, awaiting⟩
    · exact ends_raise
  | failure e => exact ends_raise

def atToken (m : Machine) : Machine := { m with rest := skip m.rest }

def advance (r : Resolver σ) (m : Machine) : Eval σ Machine := if m.expectOperator then m.operator r else m.operand r

def remaining (m : Machine) : Nat := 2 * m.rest.length + if m.expectOperator then 1 else 0

/-- A step keeps the expression, goes on in what is left of the text, and leaves fewer steps. -/
theorem advance_progress (r : Resolver σ) (m : Machine) :
    Eval.Ends (m.atToken.advance r)
      (fun m' => m'.expression = m.expression ∧ m'.rest <:+ m.rest ∧ m'.remaining < m.remaining) Anything := by
  unfold advance remaining
  split
  · next expects =>
    refine (operator_progress r rfl).mono fun m' ⟨expression, suffix, progress⟩ => ⟨expression, suffix, ?_⟩
    have bound := suffix.length_le
    rw [show m.expectOperator = true from expects]
    split
    · next operator =>
      have := (progress operator).2
      simp only [if_true]
      omega
    · simp only [if_true]
      omega
  · refine (operand_progress r rfl).mono fun m' ⟨expression, suffix, progress⟩ => ⟨expression, suffix, ?_⟩
    split <;> omega

def proceed (r : Resolver σ) (m : Machine) : Eval σ Float := scan r (m.remaining + 1) m

theorem scan_succ (r : Resolver σ) (fuel : Nat) (m : Machine) :
    scan r (fuel + 1) m = if (skip m.rest).isEmpty then m.atToken.finish r else m.atToken.advance r >>= scan r fuel := by
  rw [scan]
  change (if (skip m.rest).isEmpty then _ else _) = _
  split
  · rfl
  · unfold advance
    cases expects : m.expectOperator <;> simp [atToken, skip, expects]

theorem scan_eq_proceed (r : Resolver σ) {fuel : Nat} {m : Machine} (enough : m.remaining < fuel) :
    scan r fuel m = m.proceed r := by
  induction fuel using Nat.strongRecOn generalizing m with
  | ind fuel ih =>
    obtain ⟨n, rfl⟩ := Nat.exists_eq_succ_of_ne_zero (Nat.ne_of_gt (Nat.lt_of_le_of_lt (Nat.zero_le _) enough))
    rw [proceed, scan_succ, scan_succ]
    split
    · rfl
    · refine Eval.bind_congr fun s m' s' ok => ?_
      have fewer := ((advance_progress r m).of_ok ok).2.2
      -- Both bounds are enough for what is left after the step.
      rw [ih n (Nat.lt_succ_self n) (by omega)]
      rcases Nat.lt_or_ge m.remaining (n + 1) with less | more
      · by_cases same : m.remaining = n
        · rw [same, ih n (Nat.lt_succ_self n) (by omega)]
        · rw [ih m.remaining (by omega) (by omega)]
      · omega

theorem proceed_eq (r : Resolver σ) (m : Machine) :
    m.proceed r = if (skip m.rest).isEmpty then m.atToken.finish r else m.atToken.advance r >>= proceed r := by
  rw [proceed, scan_succ]
  split
  · rfl
  · exact Eval.bind_congr fun s m' s' ok => by rw [scan_eq_proceed r ((advance_progress r m).of_ok ok).2.2]

end Netlist.Machine
