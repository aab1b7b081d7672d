import Netlist.Proofs.Expression.Failures

/-!
The scan by itself lacks an operand only at the end of a text. To tell its own complaints from those that the meaning
of a name passes on, the evaluation is repeated with a mark, which is set when the meaning of a name ends with a fault.
-/
namespace Netlist
variable {σ α β : Type}

/-! ### Evaluation with a mark -/

def Eval.marking (m : Eval σ α) : Eval (σ × Bool) α := fun (s, marked) =>
  match m s with
  | (.ok a, s) => (.ok a, (s, marked))
  | (.error f, s) => (.error f, (s, true))

def Resolver.marking (r : Resolver σ) : Resolver (σ × Bool) where
  parameter name expression := (r.parameter name expression).marking
  function? := r.function?
  operators := r.operators
  call f arguments := (r.call f arguments).marking
  unknown name expression := (r.unknown name expression).marking
  note name := (r.note name).marking

inductive Marks (V : α → β → Prop) : Except Fault α × σ → Except Fault β × (σ × Bool) → Prop
  | ok {a : α} {b : β} {s : σ} (related : V a b) : Marks V (.ok a, s) (.ok b, (s, false))
  | error {f : Fault} {s : σ} {marked : Bool} : Marks V (.error f, s) (.error f, (s, marked))

def marked : Correspondence σ (σ × Bool) where
  value := Eq
  holds V m n := ∀ s, Marks V (m s) (n (s, false))
  applied := apply_eq_of_forall₂
  pure related _ := .ok related
  bind := by
    intro _ _ _ _ V W m n k l first next s
    rw [Eval.bind_apply, Eval.bind_apply]
    have both := first s
    generalize m s = result, n (s, false) = result' at both
    cases both with
    | ok related => exact next _ _ related _
    | error => exact .error
  fail _ _ := .error

theorem marked_marking {V : α → α → Prop} (refl : ∀ a, V a a) (m : Eval σ α) : marked.holds V m m.marking := by
  intro s
  change Marks V (m s) (match m s with | (.ok a, s) => (.ok a, (s, false)) | (.error f, s) => (.error f, (s, true)))
  rcases m s with ⟨_ | _, _⟩
  · exact .error
  · exact .ok (refl _)

theorem Resolver.related_marking (r : Resolver σ) (text : Text) : r.Related marked text r.marking where
  function? _ := rfl
  operators _ := rfl
  parameter _ := marked_marking Eq.refl _
  unknown _ := marked_marking Eq.refl _
  note _ := marked_marking (fun _ => trivial) _
  callValues f vs ws _ same := by
    obtain rfl : vs = ws := List.forall₂_eq_eq_eq ▸ same
    exact marked_marking Eq.refl _
  callTexts _ _ _ _ := marked_marking Eq.refl _

theorem Eval.marking_fails {bad : Fault → σ × Bool → Prop} (sets : ∀ f s, bad f (s, true)) (m : Eval σ α) :
    m.marking.FailsOnly bad := by
  intro ⟨s, marked⟩ f s' failed
  unfold marking at failed
  dsimp only at failed
  split at failed <;> cases failed
  exact sets _ _

theorem Resolver.marking_fails {bad : Fault → σ × Bool → Prop} (sets : ∀ f s, bad f (s, true)) (r : Resolver σ)
    (text : Text) : r.marking.FailsOnly text bad where
  parameter _ := Eval.marking_fails sets _
  unknown _ := Eval.marking_fails sets _
  note _ := Eval.marking_fails sets _
  call _ _ _ := Eval.marking_fails sets _

namespace Machine

open Relation

variable {r : Resolver σ} {t : Text} {m n : Machine} {s : σ} {a : Moment σ} {b : Moment (σ × Bool)}

inductive Moment.Marked : Moment σ → Moment (σ × Bool) → Prop
  | scanning {m : Machine} {s : σ} : Marked (.scanning m s) (.scanning m (s, false))
  | reducing {p : Purpose} {m : Machine} {s : σ} : Marked (.reducing p m s) (.reducing p m (s, false))
  | calling {callee : Callee} {base : Nat} {m : Machine} {s : σ} :
      Marked (.calling callee base m s) (.calling callee base m (s, false))
  | done {v : Float} {s : σ} : Marked (.ended (.ok v) s) (.ended (.ok v) (s, false))
  | failed {f : Fault} {s : σ} {marked : Bool} : Marked (.ended (.error f) s) (.ended (.error f) (s, marked))

theorem marked_after {V : α → β → Prop} {k : α → σ → Moment σ} {l : β → σ × Bool → Moment (σ × Bool)}
    {result : Except Fault α × σ} {result' : Except Fault β × (σ × Bool)} (same : Marks V result result')
    (next : ∀ a b s, V a b → (k a s).Marked (l b (s, false))) : (Moment.after k result).Marked (.after l result') := by
  cases same with
  | ok related => exact next _ _ _ related
  | error => exact .failed

theorem similar_refl (whole : m.expression = t) (offered : ∀ op ∈ m.stack, op.OfferedBy r) (within : m.rest <:+ t) :
    Correspondence.Similar marked r t m m.values :=
  ⟨whole, List.forall₂_same.mpr fun _ _ => rfl, offered, within⟩

theorem eq_of_alike (alike : Correspondence.Alike marked r t m n) : n = m := by
  obtain ⟨values, rfl, similar⟩ := alike
  have same : m.values = values := List.forall₂_eq_eq_eq ▸ similar.values
  rw [← same]

theorem marked_scanning {result : Except Fault Machine × σ} {result' : Except Fault Machine × (σ × Bool)}
    (same : Marks (Correspondence.Alike marked r t) result result') :
    (Moment.after .scanning result).Marked (.after .scanning result') := by
  refine marked_after same fun m n s alike => ?_
  rw [eq_of_alike alike]
  exact .scanning

theorem marked_read (whole : m.expression = t) (within : m.rest <:+ t) (offered : ∀ op ∈ m.stack, op.OfferedBy r) (s : σ) :
    (m.read r s).Marked (m.read r.marking (s, false)) := by
  unfold read
  rw [show m.purpose? r.marking = m.purpose? r from rfl]
  split
  · split
    · exact .reducing
    · exact .failed
  · split
    · split
      · exact .reducing
      · exact .failed
    · split
      · exact .calling
      · have similar := similar_refl (m := m.atToken) whole offered ((skip_suffix _).trans within)
        exact marked_scanning (Correspondence.holds_operand (r.related_marking t) similar s)

theorem marked_settle (p : Purpose) (m : Machine) (s : σ) : (p.settle m s).Marked (p.settle m (s, false)) := by
  unfold Purpose.settle
  cases p with
  | connective | question => exact .scanning
  | colon | comma =>
    dsimp only
    split <;> first | exact .scanning | exact .failed
  | close =>
    dsimp only
    split <;> first | exact .scanning | exact .calling | exact .failed
  | finish =>
    dsimp only
    split <;> first | exact .done | exact .failed

theorem marked_next (known : InStep r t a) (same : a.Marked b) : Option.Rel Moment.Marked (next r a) (next r.marking b) := by
  cases same with
  | done | failed => exact .none
  | scanning =>
    obtain ⟨whole, within, -⟩ := known.machine rfl
    exact .some (marked_read whole within (known.offered rfl) _)
  | @reducing p m s =>
    have offered := known.offered rfl
    obtain ⟨text, rest, values, stack, expects⟩ := m
    refine .some ?_
    rcases stack with _ | ⟨op, stack⟩
    · exact marked_settle _ _ _
    · change Moment.Marked (if op.binds p.precedence then _ else _) (if op.binds p.precedence then _ else _)
      split
      · have applied := Correspondence.holds_apply (r.related_marking text) (offered op List.mem_cons_self)
          (List.forall₂_same.mpr fun v (_ : v ∈ values) => rfl) s
        refine marked_after applied fun left left' s related => ?_
        obtain rfl : left = left' := List.forall₂_eq_eq_eq ▸ related
        exact .reducing
      · exact marked_settle _ _ _
  | calling =>
    cases known with
    | calling whole within before call count =>
      have similar := similar_refl whole before.offered within
      exact .some (marked_scanning (Correspondence.holds_finishCall (r.related_marking t) similar (r.offered_callee _ _) _))

theorem marked_start (t : Text) (s : σ) : (Moment.start t s).Marked (.start t (s, false)) := by
  unfold Moment.start
  split
  · exact .failed
  · split
    · exact .failed
    · exact .scanning

theorem Reaches.marking (reached : Reaches r (.start t s) a) :
    ∃ b, Reaches r.marking (.start t (s, false)) b ∧ a.Marked b := by
  induction reached with
  | refl => exact ⟨_, .refl, marked_start t s⟩
  | tail reached moves ih =>
    obtain ⟨b, reached', same⟩ := ih
    have step := marked_next (inStep_of_reaches reached) same
    rw [show next r _ = _ from moves] at step
    generalize found : next r.marking b = after at step
    cases step with
    | some same => exact ⟨_, reached'.tail found, same⟩

theorem Reaches.of_marking (reached : Reaches r.marking (.start t (s, false)) b) :
    ∃ a, Reaches r (.start t s) a ∧ a.Marked b := by
  induction reached with
  | refl => exact ⟨_, .refl, marked_start t s⟩
  | tail reached moves ih =>
    obtain ⟨a, reached', same⟩ := ih
    have step := marked_next (inStep_of_reaches reached') same
    rw [show next r.marking _ = _ from moves] at step
    generalize found : next r a = before at step
    cases step with
    | some same => exact ⟨_, reached'.tail found, same⟩

/-! ### When an operand is missing -/

theorem complains_ne_stackUnderflow {e : EvalError} (complains : Complains t e) (text : Text) : e ≠ .stackUnderflow text := by
  cases complains <;> exact nofun

theorem reaches_lacking {s' : σ} (reached : Reaches r (.start t s) (.scanning m s')) (lacks : m.LacksOperand) :
    run r t s = (.error (.error (.stackUnderflow t)), s') := by
  have whole : m.expression = t := by
    cases inStep_of_reaches reached with
    | scanning whole => exact whole
  refine run_eq_iff_reaches.mpr (reached.tail ?_)
  simp only [Moves, next, read, lacks.exhausted, lacks.waiting, List.isEmpty_nil, whole]
  rfl

/-- The mark changes nothing. -/
theorem run_marking (r : Resolver σ) (t : Text) (s : σ) :
    (run r.marking t (s, false)).1 = (run r t s).1 ∧ (run r.marking t (s, false)).2.1 = (run r t s).2 := by
  have same := Correspondence.holds_run (r.related_marking t) s
  generalize run r t s = result, run r.marking t (s, false) = result' at same
  cases same with
  | ok related => exact ⟨congrArg Except.ok (Eq.symm related), rfl⟩
  | error => exact ⟨rfl, rfl⟩

/-- Apart from what the meaning of a name passes on, an operand is missing where the text is exhausted in front of one. -/
theorem lacks_iff {e : Text} {s' : σ} :
    run r.marking t (s, false) = (.error (.error (.stackUnderflow e)), (s', false)) ↔
      e = t ∧ ∃ m : Machine, Reaches r (.start t s) (.scanning m s') ∧ m.LacksOperand := by
  constructor
  · intro failed
    let passed (f : Fault) (s : σ × Bool) : Prop := ∀ e, f = .error (.stackUnderflow e) → s.2 = true
    have own (e' : EvalError) (s : σ × Bool) (complains : Complains t e') : passed (.error e') s :=
      fun e same => absurd (Fault.error.inj same) (complains_ne_stackUnderflow complains e)
    have names : r.marking.FailsOnly t passed := r.marking_fails (fun _ _ _ _ => rfl) t
    rcases run_fails names own (fun _ _ same => nomatch same) failed with marked | empty | bracketed | ⟨m, reached, lacks, same⟩
    · exact absurd (marked e rfl) Bool.false_ne_true
    · cases empty
    · cases bracketed
    · cases same
      obtain ⟨a, reached, same⟩ := Reaches.of_marking reached
      cases same
      exact ⟨rfl, m, reached, lacks⟩
  · rintro ⟨rfl, m, reached, lacks⟩
    obtain ⟨b, reached, same⟩ := Reaches.marking reached
    cases same
    exact reaches_lacking reached lacks

/-- The stacks of an evaluation are never out of step. Between its moments, which lead to what it ends with, each open
call has its base within the values, an operation that is applied groups nothing and has its operands, a call takes one
value for each of its arguments, and one value is left at the end. So the scan by itself lacks an operand just where the
text is exhausted in front of one. -/
theorem stacks_in_step (r : Resolver σ) (t : Text) (s : σ) :
    (∀ outcome s', run r t s = (outcome, s') ↔ Reaches r (.start t s) (.ended outcome s')) ∧
      (∀ a m, Reaches r (.start t s) a → a.machine? = some m →
        ∀ callee base, .call callee base ∈ m.stack → base ≤ m.values.length) ∧
      (∀ p m s', Reaches r (.start t s) (.reducing p m s') → ∀ op stack, m.stack = op :: stack →
        op.binds p.precedence = true → ∃ n, op.operands? = some n ∧ n ≤ m.values.length) ∧
      (∀ callee base m s', Reaches r (.start t s) (.calling callee base m s') →
        base ≤ m.values.length ∧ ∃ name es t₀, t₀ <:+ t ∧ callee = r.callee name ∧
          Derives r.vocabulary (m.stack.any (·.isCall)) .primary t₀ (.call name es) m.rest ∧
          ∃ arguments values : List Float, arguments.length = es.length ∧
            m.finishCall r callee base = do return push { m with values } (← r.invoke t callee arguments)) ∧
      (∀ m s', Reaches r (.start t s) (.reducing .finish m s') → m.stack = [] → ∃ v, m.values = [v]) ∧
      ((run r.marking t (s, false)).1 = (run r t s).1 ∧ (run r.marking t (s, false)).2.1 = (run r t s).2) ∧
      ∀ e s', run r.marking t (s, false) = (.error (.error (.stackUnderflow e)), (s', false)) ↔
        e = t ∧ ∃ m : Machine, Reaches r (.start t s) (.scanning m s') ∧ m.LacksOperand := by
  refine ⟨fun _ _ => run_eq_iff_reaches, fun a m reached at_moment => ?_, fun p m s' reached op stack top binds => ?_,
    fun callee base m s' reached => ?_, fun m s' reached empty => ?_, run_marking r t s, fun _ _ => lacks_iff⟩
  · obtain ⟨-, -, height, t₀, before, enough⟩ := (inStep_of_reaches reached).machine at_moment
    exact fun callee base member => (before.base_le member).trans enough
  · exact (inStep_of_reaches reached).operands top binds
  · exact (inStep_of_reaches reached).arguments
  · exact (inStep_of_reaches reached).alone empty

end Machine

end Netlist
