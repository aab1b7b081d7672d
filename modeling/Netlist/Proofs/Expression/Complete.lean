import Netlist.Proofs.Expression.Reduction

/-!
The scan follows every derivation of the grammar. A derivation leaves operations on the stack that
are applied only when something that binds less tightly follows; `Pending` says that they, whenever
they are applied, give the value of the tree.
-/
namespace Netlist
variable {σ : Type} {r : Resolver σ} {text : Text}

namespace Symbol

def lowest : Symbol → Nat
  | level n => n
  | call => 1

/-- The precedence of the operations that would be applied before their operand is complete. Signs
do not apply each other. -/
def limit : Symbol → Nat
  | level n => if n = Precedence.sign then Precedence.power else max n 2
  | call => Precedence.power + 1

/-- What the values of a tree are: one value, or those of the arguments of a call, last one first. -/
def meaning (r : Resolver σ) (text : Text) : Symbol → Tree → Eval σ (List Float)
  | call, .call name arguments => do
    r.announce name
    return (← Tree.evalAll r text arguments).reverse
  | _, e => do return [← e.eval r text]

def opened (r : Resolver σ) (height : Nat) : Symbol → Tree → List Operation
  | call, .call name _ => [.call (r.callee name) height]
  | _, _ => []

end Symbol

namespace Machine

/-- Values that are on the stack under operations still to be applied, and what they stand for. -/
def Pending (r : Resolver σ) (text : Text) (n : Nat) (meaning act : Eval σ (List Float)) (ops : List Operation) : Prop :=
  ∀ p ≤ n, ∀ stack values,
    (act >>= fun vs => unwindTo r text p (ops ++ stack) (vs ++ values)) =
      meaning >>= fun vs => unwindTo r text p stack (vs ++ values)

/-- The scan reads a symbol at the start of a text: it gets behind it with values and operations on
its stacks that stand for the tree. -/
def Reads (r : Resolver σ) (text : Text) (inCall : Bool) (s : Symbol) (t : Text) (e : Tree) (rest : Text) : Prop :=
  ∃ act ops, Pending r text s.lowest (s.meaning r text e) act ops ∧
    ∀ values stack, Below s.limit stack → stack.any (·.isCall) = inCall →
      proceed r ⟨text, t, values, stack, false⟩ = do
        let vs ← act
        proceed r ⟨text, rest, vs ++ values, ops ++ (s.opened r values.length e ++ stack), true⟩

theorem Pending.mono {n n' : Nat} {meaning act : Eval σ (List Float)} {ops : List Operation}
    (pending : Pending r text n meaning act ops) (le : n' ≤ n) : Pending r text n' meaning act ops :=
  fun p bound stack values => pending p (bound.trans le) stack values

theorem Pending.done (n : Nat) (meaning : Eval σ (List Float)) : Pending r text n meaning meaning [] :=
  fun _ _ _ _ => rfl

/-- An operation under pending ones, applied with the values of both. -/
theorem Pending.under {n p : Nat} {meaning act : Eval σ (List Float)} {ops : List Operation}
    (pending : Pending r text p meaning act ops) (le : n ≤ p) (op : Operation) (binds : op.binds n = true)
    (first whole : Eval σ (List Float))
    (applies : ∀ values, (do
      let us ← first
      let vs ← meaning
      apply r text op (vs ++ (us ++ values))) = do return (← whole) ++ values) :
    Pending r text n whole (do
      let us ← first
      let vs ← act
      return vs ++ us) (ops ++ [op]) := by
  intro q bound stack values
  have binds_q : op.binds q = true := by
    unfold Operation.binds at binds ⊢
    cases prec : op.precedence? with
    | none => simp [prec] at binds
    | some m =>
      simp only [prec, Option.any_some, decide_eq_true_eq] at binds ⊢
      omega
  have reduces (us : List Float) :
      (act >>= fun vs => unwindTo r text q (ops ++ op :: stack) (vs ++ (us ++ values))) =
        meaning >>= fun vs => apply r text op (vs ++ (us ++ values)) >>= unwindTo r text q stack := by
    rw [pending q (bound.trans le)]
    simp only [unwindTo_cons binds_q]
  have joined : (whole >>= fun vs => unwindTo r text q stack (vs ++ values)) =
      (do return (← whole) ++ values) >>= unwindTo r text q stack := by simp
  rw [joined, ← applies values]
  simp only [bind_assoc, pure_bind, List.append_assoc, List.singleton_append, reduces]

theorem limit_le_succ (n : Nat) : (Symbol.level n).limit ≤ (Symbol.level (n + 1)).limit := by
  dsimp only [Symbol.limit]
  split_ifs <;> simp only [Precedence.sign, Precedence.power] at * <;> omega

theorem le_limit (n : Nat) : n ≤ (Symbol.level n).limit := by
  dsimp only [Symbol.limit]
  split_ifs <;> simp only [Precedence.sign, Precedence.power] at * <;> omega

theorem Pending.after {n : Nat} {meaning act : Eval σ (List Float)} {ops : List Operation}
    (pending : Pending r text n meaning act ops) (first : Eval σ (List Float)) :
    Pending r text n
      (do
        let us ← first
        let vs ← meaning
        return vs ++ us)
      (do
        let us ← first
        let vs ← act
        return vs ++ us) ops := by
  intro p bound stack values
  simp only [bind_assoc, pure_bind, List.append_assoc, pending p bound]

private theorem inside_cons {inCall : Bool} {op : Operation} (plain : op.isCall = false) {stack : List Operation}
    (inside : stack.any (·.isCall) = inCall) : (op :: stack).any (·.isCall) = inCall := by
  simpa [plain] using inside

private theorem isCall_operation (op : Connective) : op.operation.isCall = false := by cases op <;> rfl

variable {inCall : Bool} {s : Symbol} {t t₁ t₂ rest : Text} {e : Tree}

/-- What follows a symbol finds its values on the stack, once it has reduced what is pending. -/
theorem Reads.followed (reads : Reads r text inCall s t e t₁) {p : Nat} {k : Machine → Eval σ Machine} (le : p ≤ s.lowest)
    (more : skip t₁ ≠ [])
    (step : ∀ m : Machine, m.rest = skip t₁ → m.expression = text →
      m.operator r = { m with rest := t₂ }.reduce r p >>= k)
    (values : List Float) (stack : List Operation) (below : Below s.limit stack) (inside : stack.any (·.isCall) = inCall)
    (stays : Below p (s.opened r values.length e ++ stack)) :
    proceed r ⟨text, t, values, stack, false⟩ = s.meaning r text e >>= fun vs =>
      k ⟨text, t₂, vs ++ values, s.opened r values.length e ++ stack, true⟩ >>= proceed r := by
  obtain ⟨act, ops, pending, run⟩ := reads
  have at_operator (vs : List Float) :
      proceed r ⟨text, t₁, vs ++ values, ops ++ (s.opened r values.length e ++ stack), true⟩ =
        unwindTo r text p (ops ++ (s.opened r values.length e ++ stack)) (vs ++ values) >>= fun left =>
          k ⟨text, t₂, left.2, left.1, true⟩ >>= proceed r := by
    rw [proceed_operator rfl more, step _ rfl rfl, reduce_eq]
    simp only [bind_assoc, pure_bind, atToken]
  rw [run values stack below inside]
  simp only [at_operator]
  rw [← bind_assoc, pending p le]
  simp only [unwindTo_below stays, bind_assoc, pure_bind]

private theorem reads_operand (starts : skip t ≠ [])
    (plain : Symbol.primary.meaning r text e = do return [← e.eval r text])
    (step : ∀ m : Machine, m.rest = skip t → m.expression = text → m.stack.any (·.isCall) = inCall →
      m.operand r = do return { m with rest }.push (← e.eval r text)) :
    Reads r text inCall .primary t e rest := by
  refine ⟨_, [], .done _ _, fun values stack _ inside => ?_⟩
  rw [proceed_operand rfl starts, step _ rfl rfl inside, plain]
  simp [push, Symbol.opened, atToken]

private theorem reads_group (opening : skip t = '(' :: t₁) (body : Reads r text inCall .expression t₁ e t₂)
    (closing : r.vocabulary.Delimits ')' t₂ rest) : Reads r text inCall .primary t e rest := by
  refine ⟨_, [], .done _ _, fun values stack _ inside => ?_⟩
  have step (m : Machine) (at_token : m.rest = skip t₂) (_ : m.expression = text) :=
    (operator_close (r := r) at_token closing).trans (by rw [close, reduceGroup_eq])
  have inner := body.followed (Nat.le_refl 1) (by simp [closing.2]) step values (.parenthesis :: stack) (below_cons rfl stack)
    (inside_cons rfl inside) (below_cons rfl stack)
  rw [proceed_operand rfl (by simp [opening]), operand_group opening, pure_bind]
  change proceed r ⟨text, t₁, values, .parenthesis :: stack, false⟩ = _
  rw [inner]
  simp [Symbol.opened, Symbol.meaning]

private theorem proceed_call {name : Text} (head : callHead? t = some (name, t₁)) (starts : skip t ≠ [])
    (passes : r.vocabulary.takesTexts name = false) (values : List Float) (stack : List Operation) :
    proceed r ⟨text, t, values, stack, false⟩ = r.announce name >>= fun _ =>
      proceed r ⟨text, t₁, values, .call (r.callee name) values.length :: stack, false⟩ := by
  rw [proceed_operand rfl starts, operand_call rfl head passes]
  simp only [bind_assoc, pure_bind]
  rfl

private theorem reads_emptyCall {name : Text} (head : callHead? t = some (name, t₁)) (starts : skip t ≠ [])
    (passes : r.vocabulary.takesTexts name = false) (closing : skip t₁ = ')' :: rest) :
    Reads r text inCall .primary t (.call name []) rest := by
  refine ⟨_, [], .done _ _, fun values stack _ inside => ?_⟩
  rw [proceed_call head starts passes, proceed_operand rfl (by simp [closing]), operand_close closing rfl]
  have finished := finishCall_values r text (r.callee name) rest [] values stack false
  simp only [List.reverse_nil, List.nil_append] at finished
  change (r.announce name >>= fun _ =>
    finishCall r ⟨text, rest, values, stack, false⟩ (r.callee name) values.length >>= proceed r) = _
  rw [finished]
  simp [Symbol.meaning, Symbol.opened, Tree.eval, Tree.evalAll, push]

private theorem reads_firstArgument {name : Text} (head : callHead? t = some (name, t₁)) (starts : skip t ≠ [])
    (passes : r.vocabulary.takesTexts name = false) (argument : Reads r text true .expression t₁ e rest) :
    Reads r text inCall .call t (.call name [e]) rest := by
  obtain ⟨act, ops, pending, run⟩ := argument
  refine ⟨r.announce name >>= fun _ => act, ops, ?_, fun values stack _ inside => ?_⟩
  · have announced : Pending r text Symbol.call.lowest _ _ ops := pending.after (do r.announce name; return [])
    simpa [Symbol.meaning, Tree.evalAll] using announced
  · rw [proceed_call head starts passes, run _ _ (below_cons rfl _) (by simp [Operation.isCall])]
    simp [Symbol.opened]

private theorem reads_nextArgument {name : Text} {es : List Tree} (before : Reads r text inCall .call t (.call name es) t₁)
    (comma : r.vocabulary.Delimits ',' t₁ t₂) (argument : Reads r text true .expression t₂ e rest) :
    Reads r text inCall .call t (.call name (es ++ [e])) rest := by
  obtain ⟨act, ops, pending, run⟩ := argument
  have announced : Pending r text Symbol.call.lowest _ _ ops := pending.after (Symbol.call.meaning r text (.call name es))
  refine ⟨_, ops, by simpa [Symbol.meaning, Tree.evalAll_concat] using announced, fun values stack below inside => ?_⟩
  have step (m : Machine) (at_token : m.rest = skip t₁) (same : m.expression = text) :=
    (operator_comma (r := r) at_token comma).trans (by
      rw [Machine.comma, reduceGroup_eq, show m.offset = byteSize text - byteSize (skip t₁) by
        rw [offset, at_token, same]])
  have inner := before.followed (Nat.le_refl 1) (by simp [comma.2]) step values stack below inside
    (below_cons rfl stack)
  rw [inner]
  have next (vs : List Float) := run (vs ++ values) (.call (r.callee name) values.length :: stack) (below_cons rfl _)
    (by simp [Operation.isCall])
  simp [Symbol.opened, Symbol.meaning, next]

private theorem reads_closeCall {name : Text} {es : List Tree} (before : Reads r text inCall .call t (.call name es) t₁)
    (closing : r.vocabulary.Delimits ')' t₁ rest) : Reads r text inCall .primary t (.call name es) rest := by
  refine ⟨_, [], .done _ _, fun values stack below inside => ?_⟩
  have step (m : Machine) (at_token : m.rest = skip t₁) (_ : m.expression = text) :=
    (operator_close (r := r) at_token closing).trans (by rw [close, reduceGroup_eq])
  have inner := before.followed (Nat.le_refl 1) (by simp [closing.2]) step values stack below inside
    (below_cons rfl stack)
  rw [inner]
  simp [Symbol.opened, Symbol.meaning, finishCall_values, Tree.eval, push]

private theorem reads_lift {n : Nat} (tighter : Reads r text inCall (.level (n + 1)) t e rest) :
    Reads r text inCall (.level n) t e rest := by
  obtain ⟨act, ops, pending, run⟩ := tighter
  exact ⟨act, ops, pending.mono (Nat.le_succ n), fun values stack below inside =>
    run values stack (below.mono (limit_le_succ n)) inside⟩

theorem limit_precedence (op : Connective) : (Symbol.level op.precedence).limit = op.precedence := by
  rcases op with op | _
  · cases op <;> rfl
  · rfl

/-- The left operand of a connective is complete when the right one starts. -/
private theorem reads_left {op : Connective} {a : Tree} (left : Reads r text inCall (.level op.precedence) t a t₁)
    (read : r.vocabulary.connective? t₁ = some (op, t₂)) (more : skip t₂ ≠ []) (values : List Float)
    {stack : List Operation} (below : Below op.precedence stack) (inside : stack.any (·.isCall) = inCall) :
    proceed r ⟨text, t, values, stack, false⟩ = a.eval r text >>= fun v =>
      proceed r ⟨text, t₂, v :: values, op.operation :: stack, false⟩ := by
  have step (m : Machine) (at_token : m.rest = skip t₁) (_ : m.expression = text) :=
    operator_connective (r := r) at_token read
  have before : skip t₁ ≠ [] := fun blank => more (skip_eq_nil_of_suffix (connective?_suffix read) blank)
  have inner := left.followed (Nat.le_refl _) before step values stack (by rwa [limit_precedence]) inside below
  rw [inner]
  simp [Symbol.meaning, Symbol.opened, await]

private theorem reads_connective {op : Connective} {a b : Tree}
    (left : Reads r text inCall (.level op.precedence) t a t₁) (read : r.vocabulary.connective? t₁ = some (op, t₂))
    (more : skip t₂ ≠ []) (right : Reads r text inCall (.level (op.precedence + 1)) t₂ b rest) :
    Reads r text inCall (.level op.precedence) t (.binary op a b) rest := by
  obtain ⟨act, ops, pending, run⟩ := right
  have applied := pending.under (Nat.le_succ op.precedence) op.operation (by simp)
    (do return [← a.eval r text]) (do return [← (Tree.binary op a b).eval r text])
    (fun values => by simp [Symbol.meaning, Tree.eval, apply_operation])
  refine ⟨_, _, applied, fun values stack below inside => ?_⟩
  rw [limit_precedence] at below
  have next (v : Float) := run (v :: values) (op.operation :: stack)
    ((below_cons (by simp) stack).mono (le_limit (op.precedence + 1)))
    (inside_cons (isCall_operation op) inside)
  rw [reads_left left read more values below inside]
  simp [next, Symbol.opened]

private theorem proceed_sign {sign : UnaryOperator} (signed : sign? t = some (sign, t₁)) (starts : skip t ≠ [])
    (values : List Float) (stack : List Operation) :
    proceed r ⟨text, t, values, stack, false⟩ = proceed r ⟨text, t₁, values, .unary sign :: stack, false⟩ := by
  rw [proceed_operand rfl starts, operand_sign rfl signed, pure_bind]
  rfl

private theorem Pending.signed {act : Eval σ (List Float)} {ops : List Operation}
    (pending : Pending r text Precedence.sign (Symbol.signed.meaning r text e) act ops) (sign : UnaryOperator) :
    Pending r text Precedence.sign (Symbol.signed.meaning r text (.sign sign e)) act (ops ++ [.unary sign]) := by
  have applied := pending.under (Nat.le_refl _) (.unary sign) rfl (return [])
    (Symbol.signed.meaning r text (.sign sign e)) (fun values => by simp [Symbol.meaning, Tree.eval, apply])
  simpa using applied

private theorem reads_sign {sign : UnaryOperator} (signed : sign? t = some (sign, t₁)) (starts : skip t ≠ [])
    (operand : Reads r text inCall .signed t₁ e rest) : Reads r text inCall .signed t (.sign sign e) rest := by
  obtain ⟨act, ops, pending, run⟩ := operand
  refine ⟨act, _, pending.signed sign, fun values stack below inside => ?_⟩
  rw [proceed_sign signed starts, run _ _ (below_cons rfl stack) (inside_cons rfl inside)]
  simp [Symbol.opened]

private theorem reads_signedOperand {op : Connective} {sign : UnaryOperator} {t₃ : Text} {a b : Tree}
    (left : Reads r text inCall .power t a t₁) (read : r.vocabulary.connective? t₁ = some (op, t₂))
    (binds : op.precedence = Precedence.power) (signed : sign? t₂ = some (sign, t₃)) (more : skip t₂ ≠ [])
    (right : Reads r text inCall .signed t₃ b rest) :
    Reads r text inCall .signed t (.binary op a (.sign sign b)) rest := by
  obtain ⟨act, ops, pending, run⟩ := right
  have applied := (pending.signed sign).under (Nat.le_refl _) op.operation (by simp [binds, Precedence.power, Precedence.sign])
    (do return [← a.eval r text]) (do return [← (Tree.binary op a (.sign sign b)).eval r text])
    (fun values => by simp [Symbol.meaning, Tree.eval, apply_operation])
  refine ⟨_, _, applied, fun values stack below inside => ?_⟩
  have next (v : Float) := run (v :: values) (.unary sign :: op.operation :: stack) (below_cons rfl _)
    (inside_cons rfl (inside_cons (isCall_operation op) inside))
  have power : Reads r text inCall (.level op.precedence) t a t₁ := by rw [binds]; exact left
  rw [reads_left power read more values (by rw [binds]; exact below) inside]
  simp only [proceed_sign signed more, next]
  simp [Symbol.opened]

private theorem reads_conditional {t₃ t₄ : Text} {c a b : Tree}
    (condition : Reads r text inCall (.level (Precedence.conditional + 1)) t c t₁)
    (question : r.vocabulary.Delimits '?' t₁ t₂) (consequence : Reads r text inCall .expression t₂ a t₃)
    (colon : r.vocabulary.Delimits ':' t₃ t₄) (otherwise : Reads r text inCall .expression t₄ b rest) :
    Reads r text inCall .expression t (.conditional c a b) rest := by
  obtain ⟨act, ops, pending, run⟩ := otherwise
  have applied := pending.under (Nat.le_refl 1) .conditional rfl
    (do
      let u ← c.eval r text
      let v ← a.eval r text
      return [v, u])
    (Symbol.expression.meaning r text (.conditional c a b))
    (fun values => by simp [Symbol.meaning, Tree.eval, apply])
  refine ⟨_, _, applied, fun values stack below inside => ?_⟩
  have first (m : Machine) (at_token : m.rest = skip t₁) (_ : m.expression = text) :=
    operator_question (r := r) at_token question
  have second (m : Machine) (at_token : m.rest = skip t₃) (_ : m.expression = text) :=
    (operator_colon (r := r) at_token colon).trans (by rw [Machine.colon, reduceGroup_eq])
  have at_question := condition.followed (Nat.le_refl _) (by simp [question.2]) first values stack below inside below
  have at_colon (u : Float) := consequence.followed (Nat.le_refl 1) (by simp [colon.2]) second (u :: values)
    (.question :: stack) (below_cons rfl stack) (inside_cons rfl inside) (below_cons rfl stack)
  have next (u v : Float) := run (v :: u :: values) (.conditional :: stack) (below_cons rfl stack) (inside_cons rfl inside)
  rw [at_question]
  simp [Symbol.meaning, Symbol.opened, await] at at_colon next ⊢
  simp [at_colon, next]

end Machine

abbrev Opens (c : Char) : Prop := isWhiteSpace c = false ∧ c ≠ '\x7b' ∧ c ≠ '\''

private theorem opens_of_range {c : Char} (range : 48 ≤ c.toNat ∧ c.toNat ≤ 122) : Opens c := by
  refine ⟨?_, ?_, ?_⟩
  · simp only [isWhiteSpace, Bool.or_eq_false_iff, Bool.and_eq_false_iff, decide_eq_false_iff_not]
    omega
  · rintro rfl
    exact absurd range (by decide)
  · rintro rfl
    exact absurd range (by decide)

private theorem opens_numeral {c : Char} (start : isNumeralStart c = true) : Opens c := by
  simp only [isNumeralStart, Bool.or_eq_true, beq_iff_eq] at start
  rcases start with digit | rfl
  · have range := Char.isDigit_iff_toNat.mp digit
    exact opens_of_range ⟨range.1, range.2.trans (by decide)⟩
  · decide

private theorem opens_identifier {c : Char} (start : isIdentifierStart c = true) : Opens c := by
  rcases range_of_identifierStart start with upper | lower | rfl
  · exact opens_of_range ⟨le_trans (by decide) upper.1, upper.2.trans (by decide)⟩
  · exact opens_of_range ⟨le_trans (by decide) lower.1, lower.2.trans (by decide)⟩
  · decide

private theorem identifier?_opens {t : Text} {found : Text × Text} (read : identifier? t = some found) :
    ∃ c more, skip t = c :: more ∧ Opens c := by
  unfold identifier? at read
  split at read
  · next start =>
    cases eq : skip t with
    | nil => simp [eq] at start
    | cons c more => exact ⟨c, more, rfl, opens_identifier (by simpa [eq] using start)⟩
  · cases read

private theorem callHead?_opens {t : Text} {found : Text × Text} (head : callHead? t = some found) :
    ∃ c more, skip t = c :: more ∧ Opens c := by
  unfold callHead? at head
  split at head
  · next read => exact identifier?_opens read
  · cases head

theorem Derives.opens {w : Vocabulary} {inCall : Bool} {s : Symbol} {t rest : Text} {e : Tree}
    (derives : Derives w inCall s t e rest) : ∃ c more, skip t = c :: more ∧ Opens c := by
  induction derives with
  | @literal _ t _ _ start _ =>
    cases eq : skip t with
    | nil => simp [eq] at start
    | cons c more => exact ⟨c, more, rfl, opens_numeral (by simpa [eq] using start)⟩
  | parameter read _ => exact identifier?_opens read
  | @reference _ t _ _ read =>
    unfold reference? at read
    split at read
    · next eq => exact ⟨_, _, eq, by decide⟩
    · cases read
  | group opening => exact ⟨_, _, opening, by decide⟩
  | capture head => exact callHead?_opens head
  | emptyCall head => exact callHead?_opens head
  | firstArgument head => exact callHead?_opens head
  | nextArgument _ _ _ ih => exact ih
  | closeCall _ _ ih => exact ih
  | lift _ ih => exact ih
  | connective _ _ _ ih => exact ih
  | signedOperand _ _ _ _ _ ih => exact ih
  | sign signed =>
    unfold sign? at signed
    split at signed
    · next eq => exact ⟨_, _, eq, by decide⟩
    · next eq => exact ⟨_, _, eq, by decide⟩
    · next eq => exact ⟨_, _, eq, by decide⟩
    · cases signed
  | conditional _ _ _ _ _ ih => exact ih

private theorem callHead?_starts {t u : Text} {name : Text} (head : callHead? t = some (name, u)) : skip t ≠ [] :=
  fun blank => by simp [callHead?, identifier?, blank] at head

theorem Derives.starts {w : Vocabulary} {inCall : Bool} {s : Symbol} {t rest : Text} {e : Tree}
    (derives : Derives w inCall s t e rest) : skip t ≠ [] := by
  obtain ⟨c, more, eq, -⟩ := derives.opens
  simp [eq]

open Machine in
/-- The scan follows a derivation. -/
theorem Derives.reads {inCall : Bool} {s : Symbol} {t rest : Text} {e : Tree}
    (derives : Derives r.vocabulary inCall s t e rest) (text : Text) : Machine.Reads r text inCall s t e rest := by
  induction derives with
  | literal start read =>
    refine reads_operand (fun blank => by simp [blank] at start) rfl fun m at_token _ inside => ?_
    rw [← inside] at read
    simp [operand_literal at_token start read, Tree.eval]
  | parameter read alone =>
    refine reads_operand (fun blank => by simp [identifier?, blank] at read) rfl fun m at_token same _ => ?_
    rw [operand_parameter at_token read alone, same, Tree.eval]
  | reference read =>
    refine reads_operand (fun blank => by simp [reference?, blank] at read) rfl fun m at_token same _ => ?_
    rw [operand_reference at_token read, same, Tree.eval]
  | capture head texts read =>
    refine reads_operand (callHead?_starts head) rfl fun m at_token same _ => ?_
    rw [operand_capture at_token head texts read, same, Tree.eval]
  | group opening _ closing body => exact reads_group opening body closing
  | emptyCall head passes closing =>
    exact reads_emptyCall head (callHead?_starts head) passes closing
  | firstArgument head passes _ argument => exact reads_firstArgument head (callHead?_starts head) passes argument
  | nextArgument _ comma _ before argument => exact reads_nextArgument before comma argument
  | closeCall _ closing before => exact reads_closeCall before closing
  | lift _ tighter => exact reads_lift tighter
  | connective _ read right left right' => exact reads_connective left read right.starts right'
  | signedOperand _ read binds signed right left right' =>
    exact reads_signedOperand left read binds signed (Derives.sign signed right).starts right'
  | sign signed operand read => exact reads_sign signed (Derives.sign signed operand).starts read
  | conditional _ question _ colon _ condition consequence otherwise =>
    exact reads_conditional condition question consequence colon otherwise

/-- White space in front of a text that goes on with `c` is all that is trimmed there. -/
theorem dropWhile_isWhiteSpace {t more : Text} {c : Char} (eq : skip t = c :: more) (solid : isWhiteSpace c = false) :
    t.dropWhile isWhiteSpace = c :: more := by
  induction t with
  | nil => cases eq
  | cons a t ih =>
    by_cases ascii : isAsciiSpace a = true
    · rw [List.dropWhile_cons_of_pos (isWhiteSpace_of_isAsciiSpace ascii)]
      exact ih (by rw [← eq, skip, skip, List.dropWhile_cons_of_pos ascii])
    · rw [skip, List.dropWhile_cons_of_neg ascii] at eq
      cases eq
      rw [List.dropWhile_cons_of_neg (by simp [solid])]

private theorem trim_opens {t more : Text} {c : Char} (eq : skip t = c :: more) (opens : Opens c) :
    ∃ kept, trim t = c :: kept := by
  unfold trim dropEndWhile
  rw [dropWhile_isWhiteSpace eq opens.1, List.reverse_cons, List.dropWhile_append,
    List.dropWhile_cons_of_neg (by simp [opens.1])]
  split <;> simp

theorem Machine.run_eq_proceed {t more : Text} {c : Char} (eq : skip t = c :: more) (opens : Opens c) :
    Machine.run r t = Machine.proceed r ⟨t, t, [], [], false⟩ := by
  obtain ⟨kept, trimmed⟩ := trim_opens eq opens
  have plain : Machine.isBracketed (c :: kept) = false := by
    simp [Machine.isBracketed, opens.2.1, opens.2.2]
  rw [Machine.run, trimmed]
  simp only [List.isEmpty_cons, plain, Bool.false_eq_true, if_false]
  exact Machine.scan_eq_proceed r (by simp [Machine.remaining])

def Machine.conclude (t : Text) : List Operation → List Float → Eval σ Float
  | .parenthesis :: _, _ | .call .. :: _, _ => Eval.raise (.unbalancedParentheses t)
  | .question :: _, _ => Eval.raise (.unmatchedConditional t)
  | _, [v] => return v
  | _, _ => Eval.raise (.stackUnderflow t)

/-- The value of a text is the value of its tree. -/
theorem Vocabulary.Reads.run_eq {t : Text} {e : Tree} (reads : r.vocabulary.Reads t e) :
    Machine.run r t = e.eval r t := by
  obtain ⟨rest, derives, exhausted⟩ := reads
  obtain ⟨c, more, eq, opens⟩ := derives.opens
  obtain ⟨act, ops, pending, run⟩ := derives.reads t
  have finished (vs : List Float) : Machine.proceed r ⟨t, rest, vs, ops, true⟩ =
      Machine.unwindTo r t 1 ops vs >>= fun left => Machine.conclude t left.1 left.2 := by
    rw [Machine.proceed_eq, if_pos (by simp [exhausted]), Machine.finish, if_neg (by simp [Machine.atToken]),
      Machine.reduceGroup_eq, Machine.reduce_eq]
    simp only [bind_assoc, pure_bind]
    rfl
  have settled := pending 1 (Nat.le_refl 1) [] []
  simp only [List.append_nil] at settled
  rw [Machine.run_eq_proceed eq opens, run [] [] (fun _ top => absurd top (by simp)) rfl]
  simp only [Symbol.opened, List.append_nil, finished]
  rw [← bind_assoc, settled]
  simp [Symbol.meaning, Machine.unwindTo, Machine.unwind, Machine.conclude]

end Netlist
