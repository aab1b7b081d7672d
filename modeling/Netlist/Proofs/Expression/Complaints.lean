import Netlist.Proofs.Expression.Parametric
import Netlist.Proofs.Expression.Sound

/-!
How a step of the scan fails. The scan itself complains of little: of a text that cannot stand where it stands,
of parentheses and conditionals, and of calls. Every other fault of a step comes out of the meaning of a name.
-/
namespace Netlist

namespace Eval
variable {σ α β : Type} {bad : Fault → σ → Prop}

def FailsOnly (m : Eval σ α) (bad : Fault → σ → Prop) : Prop := ∀ s f s', m s = (.error f, s') → bad f s'

theorem FailsOnly.pure (a : α) : FailsOnly (pure a : Eval σ α) bad := fun _ _ _ failed => nomatch failed

theorem FailsOnly.throw {f : Fault} (holds : ∀ s, bad f s) : FailsOnly (throw f : Eval σ α) bad := by
  intro s f' s' failed
  cases failed
  exact holds s

theorem FailsOnly.raise {e : EvalError} (holds : ∀ s, bad (.error e) s) : FailsOnly (raise e : Eval σ α) bad := .throw holds

theorem FailsOnly.modify (f : σ → σ) : FailsOnly (modify f : Eval σ Unit) bad := fun _ _ _ failed => nomatch failed

theorem FailsOnly.attempt (holds : ∀ f s, (∀ e, f ≠ .error e) → bad f s) (m : Eval σ α) : FailsOnly m.attempt bad := by
  intro s f s' failed
  rw [attempt_apply] at failed
  rcases eq : m s with ⟨(e | _ | _) | a, s₁⟩
  all_goals rw [eq] at failed; cases failed
  · exact holds _ _ nofun
  · exact holds _ _ nofun

theorem FailsOnly.bind {m : Eval σ α} {k : α → Eval σ β} (first : FailsOnly m bad) (next : ∀ a, FailsOnly (k a) bad) :
    FailsOnly (m >>= k) bad := by
  intro s f s' failed
  rw [bind_apply] at failed
  rcases eq : m s with ⟨f' | a, s₁⟩
  · rw [eq] at failed
    cases failed
    exact first s _ _ eq
  · rw [eq] at failed
    exact next a s₁ f s' failed

end Eval

structure Resolver.FailsOnly {σ : Type} (r : Resolver σ) (text : Text) (bad : Fault → σ → Prop) : Prop where
  parameter : ∀ name, (r.parameter name text).FailsOnly bad
  unknown : ∀ name, (r.unknown name text).FailsOnly bad
  note : ∀ name, (r.note name).FailsOnly bad
  call : ∀ f arguments, r.Offers f → (r.call f arguments).FailsOnly bad

/-- What the scan of a text complains of by itself, apart from an operand that is missing at its end. A text that
cannot stand where it stands is told with its place. -/
inductive Complains (t : Text) : EvalError → Prop
  | unexpected {before found rest : Text} (whole : t = before ++ found ++ rest) :
      Complains t (.unexpectedText found (byteSize before) t)
  | unbalanced : Complains t (.unbalancedParentheses t)
  | unmatched : Complains t (.unmatchedConditional t)
  | arity (name expected : Text) (found : Nat) : Complains t (.arity name expected found)
  | reference (message : Text) : Complains t (.function ['@'] message)

theorem Resolver.offered_callee {σ : Type} (r : Resolver σ) (name : Text) (base : Nat) :
    (Operation.call (r.callee name) base).OfferedBy r := by
  unfold Resolver.callee
  split
  · next f function => exact .inl ⟨name, function⟩
  · split <;> trivial

theorem Unfinished.offered {σ : Type} {r : Resolver σ} {whole t : Text} {stack : List Operation} {height : Nat}
    (before : Unfinished r whole stack height t) : ∀ op ∈ stack, op.OfferedBy r := by
  induction before with
  | start => exact nofun
  | group _ _ ih | sign _ _ ih | question _ _ _ _ ih | colon _ _ _ _ _ _ ih => exact List.forall_mem_cons.mpr ⟨trivial, ih⟩
  | call _ _ _ is ih | argument _ _ _ _ is ih => exact List.forall_mem_cons.mpr ⟨is ▸ r.offered_callee _ _, ih⟩
  | @connective _ _ _ _ _ _ op _ _ is _ _ read ih =>
    refine List.forall_mem_cons.mpr ⟨?_, ih⟩
    subst is
    cases op with
    | builtin op => trivial
    | named f =>
      unfold Vocabulary.connective? at read
      split at read
      · next longest =>
        cases read
        exact .inr (isLongest_of_longestOperator? longest).1
      · simp at read

namespace Machine
variable {σ : Type} {r : Resolver σ} {m : Machine} {bad : Fault → σ → Prop}

/-- Behind what has been read, a beginning of the rest is told with its place. -/
theorem complains_unexpected (within : m.rest <:+ m.expression) {found : Text} (start : found <+: m.rest) :
    Complains m.expression (.unexpectedText found m.offset m.expression) := by
  obtain ⟨before, whole⟩ := within
  obtain ⟨rest, eq⟩ := start
  have place : m.offset = byteSize before := by
    rw [offset, ← whole, byteSize_append, Nat.add_sub_cancel]
  rw [place]
  exact .unexpected (by rw [List.append_assoc, eq, whole])

theorem apply_fails {t : Text} (names : r.FailsOnly t bad) {op : Operation} (offered : op.OfferedBy r) {n : Nat}
    (takes : op.operands? = some n) {values : List Float} (enough : n ≤ values.length) :
    (apply r t op values).FailsOnly bad := by
  cases op with
  | parenthesis => cases takes
  | call callee base => cases takes
  | question => cases takes
  | unary op =>
    cases takes
    obtain ⟨x, values, rfl⟩ := List.exists_cons_of_length_pos enough
    exact .pure _
  | conditional =>
    cases takes
    rcases values with _ | ⟨b, _ | ⟨a, _ | ⟨c, values⟩⟩⟩
    · simp at enough
    · simp at enough
    · simp at enough
    · exact .pure _
  | named f =>
    cases takes
    rcases values with _ | ⟨b, _ | ⟨a, values⟩⟩
    · simp at enough
    · simp at enough
    · exact (names.call f _ offered).bind fun _ => .pure _
  | binary op =>
    cases takes
    rcases values with _ | ⟨b, _ | ⟨a, values⟩⟩
    · simp at enough
    · simp at enough
    · rw [show Operation.binary op = (Connective.builtin op).operation from rfl, apply_operation]
      refine Eval.FailsOnly.bind ?_ fun _ => .pure _
      unfold Resolver.combine
      split
      · split
        · next f function =>
          split
          · exact .pure _
          · exact names.call f _ (.inl ⟨_, function⟩)
        · exact .pure _
      · exact .pure _
      · next same => cases same

section Tokens

variable (names : r.FailsOnly m.expression bad) (own : ∀ e s, Complains m.expression e → bad (.error e) s)

include names own

/-- A call whose base is no higher than the values fails only for the number of these, or as what it calls does. -/
theorem finishCall_fails {callee : Callee} {base : Nat} (offered : (Operation.call callee base).OfferedBy r)
    (enough : base ≤ m.values.length) : (m.finishCall r callee base).FailsOnly bad := by
  unfold finishCall
  rw [if_neg (Nat.not_lt.mpr enough)]
  cases callee with
  | function f => exact (names.call f _ offered).bind fun _ => .pure _
  | unknown name => exact (names.unknown name).bind fun _ => .pure _
  | builtin f =>
    dsimp only
    split
    · exact .pure _
    · exact .raise fun s => own _ s (.arity _ _ _)

theorem startCall_fails (name : Text) : (m.startCall r name).FailsOnly bad := by
  unfold startCall
  split
  · next f function =>
    split
    · split
      · exact .raise fun s => own _ s .unbalanced
      · exact (names.call f _ (.inl ⟨name, function⟩)).bind fun _ => .pure _
    · exact .pure _
  · split
    · exact (names.note name).bind fun _ => .pure _
    · exact .pure _

theorem reference_fails (within : m.rest <:+ m.expression) : (m.reference r).FailsOnly bad := by
  have called {f : Function} (function : r.function? ['@'] = some f) (m' : Machine) (arguments : List Text) :
      Eval.FailsOnly (if f.isRaw then do return m'.push (← r.call f (.raw arguments))
        else Eval.raise (.function ['@'] (chars "reference lookups take raw arguments"))) bad := by
    split
    · exact (names.call f _ (.inl ⟨_, function⟩)).bind fun _ => .pure _
    · exact .raise fun s => own _ s (.reference _)
  have behind : m.rest.dropWhile isIdentifierPart <:+ m.expression := (List.dropWhile_suffix _).trans within
  unfold reference
  dsimp only
  split
  · exact .raise fun s => own _ s (complains_unexpected within (List.takeWhile_prefix _))
  · split
    · split
      · rw [pure_bind]
        split
        · next function => exact called function _ _
        · exact (names.unknown _).bind fun _ => .pure _
      · rw [Eval.raise_bind]
        exact .raise fun s => own _ s
          (complains_unexpected (m := { m with rest := m.rest.dropWhile isIdentifierPart }) behind (List.prefix_refl _))
    · rw [pure_bind]
      split
      · next function => exact called function _ _
      · exact (names.unknown _).bind fun _ => .pure _

omit names in
theorem numeral_fails (within : m.rest <:+ m.expression) (torn : ∀ s, bad .violated s) :
    (m.numeral : Eval σ Machine).FailsOnly bad := by
  unfold numeral
  split
  · exact .pure _
  · exact .raise fun s => own _ s (complains_unexpected within (List.takeWhile_prefix _))
  · exact .throw torn

theorem identifier_fails : (m.identifier r).FailsOnly bad := by
  unfold identifier
  dsimp only
  split
  · next rest _ => exact startCall_fails (m := { m with rest }) names own _
  · exact (names.parameter _).bind fun _ => .pure _

theorem operand_fails (within : m.rest <:+ m.expression) (more : m.rest ≠ []) (torn : ∀ s, bad .violated s)
    (offered : ∀ op ∈ m.stack, op.OfferedBy r) : (m.operand r).FailsOnly bad := by
  have stuck : (Eval.raise m.unexpected : Eval σ Machine).FailsOnly bad :=
    .raise fun s => own _ s (complains_unexpected within (List.takeWhile_prefix _))
  unfold operand
  split
  · next empty => exact absurd empty more
  · next c rest eq =>
    have behind : rest <:+ m.expression := (eq ▸ List.suffix_cons c rest).trans within
    split_ifs
    · exact .pure _
    · exact .pure _
    · exact .pure _
    · exact .pure _
    · split
      · next callee base stack top =>
        split
        · next same =>
          have waiting := offered (.call callee base) (top ▸ List.mem_cons_self)
          exact finishCall_fails (m := { m with rest, stack }) names own waiting (Nat.le_of_eq same)
        · exact stuck
      · exact stuck
    · exact reference_fails (m := { m with rest }) names own behind
    · exact numeral_fails own within torn
    · exact identifier_fails names own
    · exact stuck

end Tokens

end Machine

end Netlist
