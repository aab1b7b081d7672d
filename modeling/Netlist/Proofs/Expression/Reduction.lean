import Netlist.Proofs.Expression.Progress

/-!
How operations leave the stack. All reductions are of one kind: they apply the operations that bind
at least as tightly as some precedence, and a stack below that precedence stays as it is.
-/
namespace Netlist

def Operation.binds (p : Nat) (op : Operation) : Bool := op.precedence?.any fun q => decide (p ≤ q)

theorem Operation.binds_one (op : Operation) : op.binds 1 = op.precedence?.isSome := by
  rcases op with op | _ | _ | _ | _ | _ | _ <;> try rfl
  cases op <;> rfl

@[simp] theorem Connective.binds_operation (p : Nat) (op : Connective) :
    op.operation.binds p = decide (p ≤ op.precedence) := by
  cases op <;> rfl

namespace Machine
variable {σ : Type} {r : Resolver σ} {text : Text}

def Below (p : Nat) (stack : List Operation) : Prop := ∀ op ∈ stack.head?, op.binds p = false

theorem below_cons {p : Nat} {op : Operation} (stays : op.binds p = false) (stack : List Operation) :
    Below p (op :: stack) := by
  intro top is_top
  cases is_top
  exact stays

theorem Below.mono {p q : Nat} {stack : List Operation} (below : Below p stack) (le : p ≤ q) : Below q stack := by
  intro op top
  have at_p := below op top
  unfold Operation.binds at at_p ⊢
  cases prec : op.precedence? with
  | none => rfl
  | some n =>
    rw [prec] at at_p
    simp only [Option.any_some, decide_eq_false_iff_not] at at_p ⊢
    omega

abbrev unwindTo (r : Resolver σ) (text : Text) (p : Nat) (stack : List Operation) (values : List Float) :
    Eval σ (List Operation × List Float) :=
  unwind r text (Operation.binds p) stack values

theorem unwindTo_below {p : Nat} {stack : List Operation} (below : Below p stack) (values : List Float) :
    unwindTo r text p stack values = return (stack, values) := by
  cases stack with
  | nil => rfl
  | cons op stack =>
    have stays : op.binds p = false := below op rfl
    simp [unwindTo, unwind, stays]

theorem unwindTo_cons {p : Nat} {op : Operation} (binds : op.binds p = true) (stack : List Operation)
    (values : List Float) :
    unwindTo r text p (op :: stack) values = apply r text op values >>= unwindTo r text p stack := by
  simp [unwindTo, unwind, binds]

theorem reduce_eq (r : Resolver σ) (m : Machine) (p : Nat) :
    m.reduce r p = do
      let left ← unwindTo r m.expression p m.stack m.values
      return { m with stack := left.1, values := left.2 } := rfl

theorem reduceGroup_eq (r : Resolver σ) (m : Machine) : m.reduceGroup r = m.reduce r 1 := by
  unfold reduceGroup reduce
  congr
  funext op
  exact op.binds_one.symm

theorem apply_operation (op : Connective) (a b : Float) (values : List Float) :
    apply r text op.operation (b :: a :: values) = do return (← r.combine op a b) :: values := by
  rcases op with op | f
  · cases op <;> try rfl
    unfold Connective.operation apply Resolver.combine
    cases r.function? (chars "pow") with
    | none => rfl
    | some f => cases raw : f.isRaw <;> simp [raw]
  · rfl

theorem finishCall_values (r : Resolver σ) (text : Text) (callee : Callee) (rest : Text) (arguments values : List Float) (stack : List Operation)
    (expects : Bool) :
    finishCall r ⟨text, rest, arguments.reverse ++ values, stack, expects⟩ callee values.length = do
      return push ⟨text, rest, values, stack, expects⟩ (← r.invoke text callee arguments) := by
  have base : ¬ (arguments.reverse ++ values).length < values.length := by simp
  have count : (arguments.reverse ++ values).length - values.length = arguments.reverse.length := by simp
  unfold finishCall Resolver.invoke
  dsimp only
  rw [if_neg base, count, List.take_left, List.drop_left, List.reverse_reverse, List.length_reverse]
  cases callee with
  | function f => rfl
  | unknown name => rfl
  | builtin f =>
    dsimp only
    split <;> rfl

/-- A call passes on the values above its base, and its value takes their place. -/
theorem finishCall_eq (r : Resolver σ) {m : Machine} (callee : Callee) {base : Nat} (enough : base ≤ m.values.length) :
    m.finishCall r callee base = do
      return push { m with values := m.values.drop (m.values.length - base) }
        (← r.invoke m.expression callee (m.values.take (m.values.length - base)).reverse) := by
  obtain ⟨text, rest, values, stack, expects⟩ := m
  have split := List.take_append_drop (values.length - base) values
  have left : (values.drop (values.length - base)).length = base := by
    rw [List.length_drop]
    exact Nat.sub_sub_self enough
  have finished := finishCall_values r text callee rest (values.take (values.length - base)).reverse
    (values.drop (values.length - base)) stack expects
  rwa [List.reverse_reverse, split, left] at finished

theorem proceed_operand {m : Machine} (ready : m.expectOperator = false) (more : skip m.rest ≠ []) :
    m.proceed r = m.atToken.operand r >>= proceed r := by
  rw [proceed_eq, if_neg (by simpa using more)]
  simp [advance, atToken, ready]

theorem proceed_operator {m : Machine} (ready : m.expectOperator = true) (more : skip m.rest ≠ []) :
    m.proceed r = m.atToken.operator r >>= proceed r := by
  rw [proceed_eq, if_neg (by simpa using more)]
  simp [advance, atToken, ready]

end Machine

end Netlist
