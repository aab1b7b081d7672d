import Netlist.Proofs.Expression.Reduction

/-!
The scan accepts nothing that the grammar does not derive. What is behind the scan is a tree that
is not finished: `Unfinished` describes the operations on the stack and the operands under them by
derivations, and every step leaves such a description of the text up to its end.
-/
namespace Netlist
variable {σ : Type} {r : Resolver σ} {w : Vocabulary} {whole text t rest : Text} {e : Tree} {inCall : Bool}

/-- How a text `whole` is read up to `t`, where an operand has to follow: the operations that wait
for it, and how many values are under them. -/
inductive Unfinished (r : Resolver σ) (whole : Text) : List Operation → Nat → Text → Prop
  | start : Unfinished r whole [] 0 whole
  | group {stack height t t₁} (before : Unfinished r whole stack height t) (opening : skip t = '(' :: t₁) :
      Unfinished r whole (.parenthesis :: stack) height t₁
  | sign {stack height t t₁ s} (before : Unfinished r whole stack height t) (signed : sign? t = some (s, t₁)) :
      Unfinished r whole (.unary s :: stack) height t₁
  | call {stack height t t₁ name callee} (before : Unfinished r whole stack height t)
      (head : callHead? t = some (name, t₁)) (values : r.vocabulary.takesTexts name = false)
      (is : callee = r.callee name) :
      Unfinished r whole (.call callee height :: stack) height t₁
  | argument {stack height t t₁ t₂ name callee es} (before : Unfinished r whole stack height t)
      (arguments : Derives r.vocabulary (stack.any (·.isCall)) .call t (.call name es) t₁) (given : es ≠ [])
      (comma : r.vocabulary.Delimits ',' t₁ t₂) (is : callee = r.callee name) :
      Unfinished r whole (.call callee height :: stack) (height + es.length) t₂
  | connective {stack height t t₁ t₂ a op operation} (before : Unfinished r whole stack height t)
      (is : operation = Connective.operation op) (below : Machine.Below op.precedence stack)
      (left : Derives r.vocabulary (stack.any (·.isCall)) (.level op.precedence) t a t₁)
      (read : r.vocabulary.connective? t₁ = some (op, t₂)) :
      Unfinished r whole (operation :: stack) (height + 1) t₂
  | question {stack height t t₁ t₂ c} (before : Unfinished r whole stack height t)
      (below : Machine.Below (Precedence.conditional + 1) stack)
      (condition : Derives r.vocabulary (stack.any (·.isCall)) (.level (Precedence.conditional + 1)) t c t₁)
      (mark : r.vocabulary.Delimits '?' t₁ t₂) :
      Unfinished r whole (.question :: stack) (height + 1) t₂
  | colon {stack height t t₁ t₂ t₃ t₄ c a} (before : Unfinished r whole stack height t)
      (below : Machine.Below (Precedence.conditional + 1) stack)
      (condition : Derives r.vocabulary (stack.any (·.isCall)) (.level (Precedence.conditional + 1)) t c t₁)
      (mark : r.vocabulary.Delimits '?' t₁ t₂) (consequence : Derives r.vocabulary (stack.any (·.isCall)) .expression t₂ a t₃)
      (colon : r.vocabulary.Delimits ':' t₃ t₄) :
      Unfinished r whole (.conditional :: stack) (height + 2) t₄

/-- The faults that an evaluation of a text may end with: errors, faults that the meaning of a name
ends with, and a letter behind a number whose lower case has fewer bytes. -/
def Resolver.MayFail (r : Resolver σ) (text : Text) (fault : Fault) : Prop :=
  (∃ e, fault = .error e) ∨ (fault = .violated ∧ '\u212a' ∈ text) ∨
    (∃ name s, (r.parameter name text s).1 = .error fault) ∨
      (∃ f arguments s, r.Offers f ∧ (r.call f arguments s).1 = .error fault) ∨
      (∃ name s, (r.unknown name text s).1 = .error fault) ∨ ∃ name s, (r.note name s).1 = .error fault

def Operation.operandLevel : Operation → Nat
  | binary op => op.precedence + 1
  | named _ => Precedence.power + 1
  | unary _ => Precedence.sign
  | _ => Precedence.conditional

/-- How many values an operation is applied to; grouping is never applied. -/
def Operation.operands? : Operation → Option Nat
  | unary _ => some 1
  | binary _ | named _ => some 2
  | conditional => some 3
  | parenthesis | call .. | question => none

def operandLevel : List Operation → Nat
  | [] => Precedence.conditional
  | op :: _ => op.operandLevel

theorem Derives.lower {n p : Nat} (derives : Derives w inCall (.level n) t e rest) (le : p ≤ n) :
    Derives w inCall (.level p) t e rest := by
  induction le using Nat.decreasingInduction with
  | self => exact derives
  | of_succ p _ ih => exact .lift ih

/-- What is read of a call: no argument, or some and a comma behind them. -/
theorem Unfinished.of_call {callee : Callee} {base height : Nat} {stack : List Operation}
    (before : Unfinished r whole (.call callee base :: stack) height t) :
    ∃ t₀ name, callee = r.callee name ∧ Unfinished r whole stack base t₀ ∧
      ((height = base ∧ callHead? t₀ = some (name, t) ∧ r.vocabulary.takesTexts name = false) ∨
        ∃ t₁ es, height = base + es.length ∧ es ≠ [] ∧
          Derives r.vocabulary (stack.any (·.isCall)) .call t₀ (.call name es) t₁ ∧ r.vocabulary.Delimits ',' t₁ t) := by
  cases before with
  | call before head values is => exact ⟨_, _, is, before, .inl ⟨rfl, head, values⟩⟩
  | argument before arguments some comma is => exact ⟨_, _, is, before, .inr ⟨_, _, rfl, some, arguments, comma⟩⟩
  | @connective _ _ _ _ _ _ op _ _ is =>
    have call := congrArg Operation.isCall is
    cases op <;> cases call

theorem Unfinished.of_emptyCall {callee : Callee} {base : Nat} {stack : List Operation}
    (before : Unfinished r whole (.call callee base :: stack) base t) :
    ∃ t₀ name, callee = r.callee name ∧ Unfinished r whole stack base t₀ ∧ callHead? t₀ = some (name, t) ∧
      r.vocabulary.takesTexts name = false := by
  obtain ⟨t₀, name, is, under, ⟨-, head, values⟩ | ⟨_, es, more, given, -⟩⟩ := before.of_call
  · exact ⟨t₀, name, is, under, head, values⟩
  · exact absurd (List.length_eq_zero_iff.mp (Nat.left_eq_add.mp more)) given

theorem Unfinished.of_question {height : Nat} {stack : List Operation}
    (before : Unfinished r whole (.question :: stack) height t) :
    ∃ lower t₀ t₁ c, height = lower + 1 ∧ Unfinished r whole stack lower t₀ ∧
      Machine.Below (Precedence.conditional + 1) stack ∧
      Derives r.vocabulary (stack.any (·.isCall)) (.level (Precedence.conditional + 1)) t₀ c t₁ ∧
      r.vocabulary.Delimits '?' t₁ t := by
  cases before with
  | question before below condition mark => exact ⟨_, _, _, _, rfl, before, below, condition, mark⟩
  | @connective _ _ _ _ _ _ op _ _ is => cases op <;> cases is

theorem Unfinished.of_parenthesis {height : Nat} {stack : List Operation}
    (before : Unfinished r whole (.parenthesis :: stack) height t) :
    ∃ t₀, Unfinished r whole stack height t₀ ∧ skip t₀ = '(' :: t := by
  cases before with
  | group before opening => exact ⟨_, before, opening⟩
  | @connective _ _ _ _ _ _ op _ _ is => cases op <;> cases is

namespace Machine

theorem Below.operandLevel_le {p n : Nat} {stack : List Operation} (below : Below p stack)
    (empty : Precedence.conditional ≤ n) (fits : ∀ op : Operation, op.binds p = false → op.operandLevel ≤ n) :
    operandLevel stack ≤ n := by
  cases stack with
  | nil => exact empty
  | cons op stack => exact fits op (below op rfl)

theorem precedence_range (op : Connective) :
    2 ≤ op.precedence ∧ op.precedence ≤ Precedence.power ∧ op.precedence ≠ Precedence.sign := by
  rcases op with op | _
  · cases op <;> decide
  · simp [Connective.precedence, Precedence.power, Precedence.sign]

/-- An operation that waits under another one takes at least what that one gives as an operand. -/
private theorem operandLevel_of_stays {p n : Nat} (floor : Precedence.conditional ≤ n)
    (sign : Precedence.sign < p → Precedence.sign ≤ n)
    (connective : ∀ op : Connective, op.precedence < p → op.precedence + 1 ≤ n) (op : Operation)
    (stays : op.binds p = false) : op.operandLevel ≤ n := by
  cases op with
  | binary op => exact connective (.builtin op) (by simpa [Operation.binds, Operation.precedence?, Connective.precedence] using stays)
  | named f => exact connective (.named f) (by simpa [Operation.binds, Operation.precedence?, Connective.precedence] using stays)
  | unary s => exact sign (by simpa [Operation.binds, Operation.precedence?] using stays)
  | conditional => exact floor
  | parenthesis => exact floor
  | call callee base => exact floor
  | question => exact floor

theorem Below.le_precedence {op : Connective} {stack : List Operation} (below : Below op.precedence stack) :
    operandLevel stack ≤ op.precedence := by
  have range := precedence_range op
  have floor : Precedence.conditional ≤ op.precedence := le_trans (by decide) range.1
  exact below.operandLevel_le floor
    (operandLevel_of_stays floor Nat.le_of_lt fun _ less => less)

theorem Below.le_sign {stack : List Operation} (below : Below Precedence.power stack) :
    operandLevel stack ≤ Precedence.sign := by
  refine below.operandLevel_le (by decide) (operandLevel_of_stays (by decide) (fun _ => Nat.le_refl _) fun op less => ?_)
  have range := precedence_range op
  simp only [Precedence.power, Precedence.sign] at *
  omega

theorem Below.le_conditional {stack : List Operation} (below : Below (Precedence.conditional + 1) stack) :
    operandLevel stack ≤ Precedence.conditional := by
  refine below.operandLevel_le (by decide) (operandLevel_of_stays (by decide) (by decide) fun op less => ?_)
  have range := precedence_range op
  simp only [Precedence.conditional] at *
  omega

/-- The last operand while operations are applied that bind at least as tightly as `p`, where what
waits for it takes the precedence `n`. An operand with a sign may be the right one of a power. -/
inductive Operand (w : Vocabulary) (inCall : Bool) (p n : Nat) (t : Text) (e : Tree) (rest : Text) : Prop
  | level (m : Nat) (derives : Derives w inCall (.level m) t e rest) (tight : p ≤ m) (fits : n ≤ m)
  | signed (t₁ : Text) (s : UnaryOperator) (b : Tree) (is : e = .sign s b) (signed : sign? t = some (s, t₁))
      (operand : Derives w inCall .signed t₁ b rest) (tight : p ≤ Precedence.sign)

namespace Operand
variable {p n : Nat} {t₁ t₂ : Text}

/-- An operand derives at every level up to that of signs that what waits for it takes. -/
theorem fitting (operand : Operand w inCall p n t e rest) {q : Nat} (low : q ≤ Precedence.sign) (fits : q ≤ n) :
    Derives w inCall (.level q) t e rest := by
  rcases operand with ⟨m, derives, -, fits'⟩ | ⟨t₁, s, b, rfl, signed, operand, -⟩
  · exact derives.lower (fits.trans fits')
  · exact (Derives.sign signed operand).lower low

/-- Once everything that binds as tightly is applied, the operand derives at that level. -/
theorem complete (operand : Operand w inCall p n t e rest) : Derives w inCall (.level p) t e rest := by
  rcases operand with ⟨m, derives, tight, -⟩ | ⟨t₁, s, b, rfl, signed, operand, tight⟩
  · exact derives.lower tight
  · exact (Derives.sign signed operand).lower tight

theorem connective {op : Connective} {a : Tree} {stack : List Operation}
    (operand : Operand w inCall p (op.precedence + 1) t₂ e rest)
    (left : Derives w inCall (.level op.precedence) t a t₁) (read : w.connective? t₁ = some (op, t₂))
    (below : Below op.precedence stack) (binds : p ≤ op.precedence) :
    Operand w inCall p (operandLevel stack) t (.binary op a e) rest := by
  by_cases power : op.precedence = Precedence.power
  · rcases operand with ⟨m, derives, -, fits⟩ | ⟨t₃, s, b, rfl, signed, operand, tight⟩
    · exact .level _ (.connective left read (derives.lower fits)) binds below.le_precedence
    · rw [power] at left below
      exact .level _ (.signedOperand left read power signed operand) tight below.le_sign
  · have range := precedence_range op
    have low : op.precedence + 1 ≤ Precedence.sign := by
      simp only [Precedence.power, Precedence.sign] at *
      omega
    exact .level _ (.connective left read (operand.fitting low (Nat.le_refl _))) binds below.le_precedence

theorem sign {s : UnaryOperator} (operand : Operand w inCall p Precedence.sign t₁ e rest)
    (signed : sign? t = some (s, t₁)) (binds : p ≤ Precedence.sign) : Operand w inCall p n t (.sign s e) rest :=
  .signed t₁ s e rfl signed (operand.fitting (Nat.le_refl _) (Nat.le_refl _)) binds

theorem conditional {t₃ t₄ : Text} {c a : Tree} {stack : List Operation}
    (operand : Operand w inCall p Precedence.conditional t₄ e rest)
    (condition : Derives w inCall (.level (Precedence.conditional + 1)) t c t₁) (mark : w.Delimits '?' t₁ t₂)
    (consequence : Derives w inCall .expression t₂ a t₃) (colon : w.Delimits ':' t₃ t₄)
    (below : Below (Precedence.conditional + 1) stack) (binds : p ≤ Precedence.conditional) :
    Operand w inCall p (operandLevel stack) t (.conditional c a e) rest :=
  .level _ (.conditional condition mark consequence colon (operand.fitting (by decide) (Nat.le_refl _))) binds
    below.le_conditional

end Operand

theorem ends_parameter (r : Resolver σ) (name text : Text) :
    Eval.Ends (r.parameter name text) (fun _ => True) (r.MayFail text) := by
  intro s
  rcases eq : r.parameter name text s with ⟨fault | v, s'⟩
  · exact .inr (.inr (.inl ⟨name, s, by rw [eq]⟩))
  · trivial

theorem ends_call {r : Resolver σ} (text : Text) {f : Function} (offered : r.Offers f) (arguments : Arguments) :
    Eval.Ends (r.call f arguments) (fun _ => True) (r.MayFail text) := by
  intro s
  rcases eq : r.call f arguments s with ⟨fault | v, s'⟩
  · exact .inr (.inr (.inr (.inl ⟨f, arguments, s, offered, by rw [eq]⟩)))
  · trivial

theorem ends_unknown (r : Resolver σ) (name text : Text) :
    Eval.Ends (r.unknown name text) (fun _ => True) (r.MayFail text) := by
  intro s
  rcases eq : r.unknown name text s with ⟨fault | v, s'⟩
  · exact .inr (.inr (.inr (.inr (.inl ⟨name, s, by rw [eq]⟩))))
  · trivial

theorem ends_announce (r : Resolver σ) (text name : Text) :
    Eval.Ends (r.announce name) (fun _ => True) (r.MayFail text) := by
  unfold Resolver.announce
  split
  · intro s
    rcases eq : r.note name s with ⟨fault | v, s'⟩
    · exact .inr (.inr (.inr (.inr (.inr ⟨name, s, by rw [eq]⟩))))
    · trivial
  · exact .pure trivial

theorem ends_invoke (r : Resolver σ) (text name : Text) (arguments : List Float) :
    Eval.Ends (r.invoke text (r.callee name) arguments) (fun _ => True) (r.MayFail text) := by
  unfold Resolver.callee
  split
  · next function => exact ends_call text (.inl ⟨name, function⟩) _
  · split
    · unfold Resolver.invoke
      dsimp only
      split
      · exact .pure trivial
      · exact .raise (.inl ⟨_, rfl⟩)
    · exact ends_unknown r name text

theorem ends_invokeRaw (r : Resolver σ) (text name : Text) (arguments : List Text) :
    Eval.Ends (r.invokeRaw text name arguments) (fun _ => True) (r.MayFail text) := by
  unfold Resolver.invokeRaw
  split
  · next function => exact ends_call text (.inl ⟨name, function⟩) _
  · exact ends_unknown r name text

theorem ends_refer (r : Resolver σ) (text : Text) (arguments : List Text) :
    Eval.Ends (r.refer text arguments) (fun _ => True) (r.MayFail text) := by
  unfold Resolver.refer
  split
  · next function =>
    split
    · exact ends_call text (.inl ⟨_, function⟩) _
    · exact .raise (.inl ⟨_, rfl⟩)
  · exact ends_unknown r _ text

theorem ends_combine {r : Resolver σ} (text : Text) {op : Connective} {t₁ t₂ : Text}
    (read : r.vocabulary.connective? t₁ = some (op, t₂)) (a b : Float) :
    Eval.Ends (r.combine op a b) (fun _ => True) (r.MayFail text) := by
  unfold Resolver.combine
  split
  · split
    · next function =>
      split
      · exact .pure trivial
      · exact ends_call text (.inl ⟨_, function⟩) _
    · exact .pure trivial
  · exact .pure trivial
  · next f =>
    unfold Vocabulary.connective? at read
    split at read
    · next longest =>
      cases read
      exact ends_call text (.inr ((isLongest_of_longestOperator? longest).1)) _
    · simp at read

private theorem ends_operation {op : Connective} {t₁ t₂ : Text} (read : r.vocabulary.connective? t₁ = some (op, t₂))
    {height : Nat} {values : List Float} (count : values.length = height + 2) :
    Eval.Ends (apply r text op.operation values) (fun left => left.length = height + 1) (r.MayFail text) := by
  rcases values with _ | ⟨b, _ | ⟨a, values⟩⟩
  · cases count
  · cases count
  · rw [apply_operation]
    have below : values.length = height := by simpa using count
    exact (ends_combine text read a b).bind fun v _ => .pure (by simp [below])

def Complete (r : Resolver σ) (whole : Text) (p : Nat) (rest : Text) (stack : List Operation) (count : Nat) : Prop :=
  ∃ height t e, Unfinished r whole stack height t ∧ Derives r.vocabulary (stack.any (·.isCall)) (.level p) t e rest ∧
    count = height + 1

/-- An operation that binds as tightly as `p` has the operands that the grammar gives it, and leaves one value for
them. -/
theorem unfinished_reduces {p : Nat} {op : Operation} {stack : List Operation} {height : Nat}
    (before : Unfinished r whole (op :: stack) height t)
    (operand : Operand r.vocabulary ((op :: stack).any (·.isCall)) p op.operandLevel t e rest) (binds : op.binds p = true) :
    ∃ n lower t₀ e₀, op.operands? = some (n + 1) ∧ height = lower + n ∧ Unfinished r whole stack lower t₀ ∧
      Operand r.vocabulary (stack.any (·.isCall)) p (operandLevel stack) t₀ e₀ rest ∧
      ∀ (text : Text) (values : List Float), values.length = height + 1 →
        Eval.Ends (apply r text op values) (fun left => left.length = lower + 1) (r.MayFail text) := by
  cases before with
  | group => cases binds
  | call => cases binds
  | argument => cases binds
  | question => cases binds
  | sign before signed =>
    have next := operand.sign (n := operandLevel stack) signed (by simpa [Operation.binds, Operation.precedence?] using binds)
    refine ⟨0, _, _, _, rfl, rfl, before, next, fun text values count => ?_⟩
    obtain ⟨x, values, rfl⟩ := List.exists_cons_of_length_eq_add_one count
    exact .pure (by simpa using count)
  | @connective _ _ _ _ _ a op' _ before is below left read =>
    subst is
    have plain : op'.operation.isCall = false := by cases op' <;> rfl
    have level : op'.operation.operandLevel = op'.precedence + 1 := by cases op' <;> rfl
    have binary : op'.operation.operands? = some 2 := by cases op' <;> rfl
    simp only [List.any_cons, plain, Bool.false_or, level] at operand
    have next := operand.connective left read below (by simpa using binds)
    exact ⟨1, _, _, _, binary, rfl, before, next, fun _ _ count => ends_operation read count⟩
  | colon before below condition mark consequence colon =>
    have next := operand.conditional condition mark consequence colon below
      (by simpa [Operation.binds, Operation.precedence?] using binds)
    refine ⟨2, _, _, _, rfl, rfl, before, next, fun text values count => ?_⟩
    rcases values with _ | ⟨b, _ | ⟨a, _ | ⟨c, values⟩⟩⟩
    · cases count
    · cases count
    · cases count
    · exact .pure (by simpa using count)

/-- The operations that bind as tightly as `p` are applied, and the operand takes their place. -/
theorem unwind_sound {p : Nat} {stack : List Operation} {height : Nat} {values : List Float}
    (before : Unfinished r whole stack height t)
    (operand : Operand r.vocabulary (stack.any (·.isCall)) p (operandLevel stack) t e rest)
    (count : values.length = height + 1) :
    Eval.Ends (unwindTo r text p stack values)
      (fun left => Below p left.1 ∧ Complete r whole p rest left.1 left.2.length) (r.MayFail text) := by
  induction stack generalizing height t e values with
  | nil =>
    have below : Below p [] := fun _ top => nomatch top
    exact .pure ⟨below, _, _, _, before, operand.complete, count⟩
  | cons op stack ih =>
    cases binds : op.binds p with
    | false =>
      rw [unwindTo_below (below_cons binds stack)]
      exact .pure ⟨below_cons binds stack, _, _, _, before, operand.complete, count⟩
    | true =>
      rw [unwindTo_cons binds]
      obtain ⟨_, _, _, _, _, _, before, next, applied⟩ := unfinished_reduces before operand binds
      exact (applied text values count).bind fun values count => ih before next count

theorem operandLevel_le_primary (stack : List Operation) : operandLevel stack ≤ Precedence.power + 1 := by
  rcases stack with _ | ⟨op, stack⟩
  · decide
  · cases op with
    | binary op => exact Nat.succ_le_succ (precedence_range (.builtin op)).2.1
    | named f => exact Nat.le_refl _
    | unary s => exact Nat.le_of_ble_eq_true rfl
    | _ => exact Nat.le_of_ble_eq_true rfl

/-! ### What completes what is unfinished -/

variable {stack : List Operation} {count : Nat}

theorem Complete.connective {op : Connective} (known : Complete r whole op.precedence t stack count)
    (below : Below op.precedence stack) (read : r.vocabulary.connective? t = some (op, rest)) :
    Unfinished r whole (op.operation :: stack) count rest := by
  obtain ⟨height, t₀, e, before, derives, rfl⟩ := known
  exact .connective before rfl below derives read

theorem Complete.question (known : Complete r whole (Precedence.conditional + 1) t stack count)
    (below : Below (Precedence.conditional + 1) stack) (mark : r.vocabulary.Delimits '?' t rest) :
    Unfinished r whole (.question :: stack) count rest := by
  obtain ⟨height, t₀, e, before, derives, rfl⟩ := known
  exact .question before below derives mark

theorem Complete.colon (known : Complete r whole Precedence.conditional t (.question :: stack) count)
    (mark : r.vocabulary.Delimits ':' t rest) : Unfinished r whole (.conditional :: stack) count rest := by
  obtain ⟨height, t₀, e, before, derives, rfl⟩ := known
  obtain ⟨lower, t₁, t₂, c, rfl, before, below, condition, question⟩ := before.of_question
  exact .colon before below condition question derives mark

theorem Complete.group (known : Complete r whole Precedence.conditional t (.parenthesis :: stack) count)
    (mark : r.vocabulary.Delimits ')' t rest) : Complete r whole (Precedence.power + 1) rest stack count := by
  obtain ⟨height, t₀, e, before, derives, rfl⟩ := known
  obtain ⟨t₁, before, opening⟩ := before.of_parenthesis
  exact ⟨height, t₁, e, before, .group opening derives mark, rfl⟩

theorem Complete.argument {callee : Callee} {base : Nat}
    (known : Complete r whole Precedence.conditional t (.call callee base :: stack) count) :
    ∃ t₀ name es, callee = r.callee name ∧ Unfinished r whole stack base t₀ ∧ count = base + es.length ∧ es ≠ [] ∧
      Derives r.vocabulary (stack.any (·.isCall)) .call t₀ (.call name es) t := by
  obtain ⟨height, t₁, e, before, derives, rfl⟩ := known
  obtain ⟨t₀, name, is, under, ⟨rfl, head, values⟩ | ⟨t₁, es, rfl, -, arguments, comma⟩⟩ := before.of_call
  · exact ⟨t₀, name, [e], is, under, rfl, List.cons_ne_nil _ _, .firstArgument head values derives⟩
  · exact ⟨t₀, name, es ++ [e], is, under, by simp; omega, by simp, .nextArgument arguments comma derives⟩

theorem Complete.comma {callee : Callee} {base : Nat}
    (known : Complete r whole Precedence.conditional t (.call callee base :: stack) count)
    (mark : r.vocabulary.Delimits ',' t rest) : Unfinished r whole (.call callee base :: stack) count rest := by
  obtain ⟨t₀, name, es, is, before, rfl, given, arguments⟩ := known.argument
  exact .argument before arguments given mark is

theorem Complete.call {callee : Callee} {base : Nat}
    (known : Complete r whole Precedence.conditional t (.call callee base :: stack) count)
    (mark : r.vocabulary.Delimits ')' t rest) :
    ∃ t₀ name es, callee = r.callee name ∧ Unfinished r whole stack base t₀ ∧ count = base + es.length ∧
      Derives r.vocabulary (stack.any (·.isCall)) .primary t₀ (.call name es) rest := by
  obtain ⟨t₀, name, es, is, before, rfl, _, arguments⟩ := known.argument
  exact ⟨t₀, name, es, is, before, rfl, .closeCall arguments mark⟩

/-- A reduction behind an operand applies what binds as tightly as `p` and keeps the rest. -/
private theorem reduce_sound {m : Machine} {p : Nat} (low : p ≤ Precedence.power) 
    (known : Complete r whole (Precedence.power + 1) t m.stack m.values.length) :
    Eval.Ends (m.reduce r p) (fun left => left.expression = m.expression ∧ left.rest = m.rest ∧
      left.expectOperator = m.expectOperator ∧ Below p left.stack ∧
      Complete r whole p t left.stack left.values.length) (r.MayFail m.expression) := by
  obtain ⟨height, t₀, e, before, derives, count⟩ := known
  have top := operandLevel_le_primary m.stack
  rw [reduce_eq]
  exact (unwind_sound before (.level _ derives (by omega) top) count).bind fun left ⟨below, known⟩ =>
    .pure ⟨rfl, rfl, rfl, below, known⟩

/-- The machine between two steps: it expects an operand over what is unfinished, or has read one. -/
inductive Shape (r : Resolver σ) (whole : Text) (m : Machine) : Prop
  | operand (ready : m.expectOperator = false) (before : Unfinished r whole m.stack m.values.length m.rest)
  | operator (ready : m.expectOperator = true)
      (known : Complete r whole (Precedence.power + 1) m.rest m.stack m.values.length)

private theorem shape_push {m : Machine} (before : Unfinished r whole m.stack m.values.length t) 
    (derives : Derives r.vocabulary (m.stack.any (·.isCall)) .primary t e rest) (v : Float) :
    Shape r whole ({ m with rest }.push v) :=
  .operator rfl ⟨_, _, _, before, derives, rfl⟩

theorem finishCall_sound {m : Machine} {name : Text} {height : Nat} (before : Unfinished r whole m.stack height t)
    (derives : Derives r.vocabulary (m.stack.any (·.isCall)) .primary t e m.rest) (enough : height ≤ m.values.length) :
    Eval.Ends (m.finishCall r (r.callee name) height) (Shape r whole) (r.MayFail m.expression) := by
  rw [finishCall_eq r _ enough]
  refine (ends_invoke r _ name _).bind fun v _ => .pure (.operator rfl ⟨_, _, _, before, derives, ?_⟩)
  simp only [push, List.length_cons, List.length_drop]
  omega

theorem operand_sound {m : Machine} (at_token : m.rest = skip t) (inside : m.rest <:+ m.expression)
    (before : Unfinished r whole m.stack m.values.length t) :
    Eval.Ends (m.operand r) (Shape r whole) (r.MayFail m.expression) := by
  have step := operand_step r at_token
  generalize m.operand r = action at step ⊢
  cases step with
  | group opening => exact .pure (.operand rfl (.group before opening))
  | sign read => exact .pure (.operand rfl (.sign before read))
  | close closing open_call =>
    rw [open_call] at before
    obtain ⟨t₀, name, rfl, before, head, values⟩ := before.of_emptyCall
    exact finishCall_sound before (.emptyCall head values closing) (Nat.le_refl _)
  | reference read => 
    exact (ends_refer r _ _).bind fun v _ => .pure (shape_push before (.reference read) v)
  | literal start read => exact .pure (shape_push before (.literal start read) _)
  | torn start read =>
    have letter : '\u212a' ∈ m.expression := inside.subset (at_token ▸ Number.literal_torn read)
    exact fun _ => .inr (.inl ⟨rfl, letter⟩)
  | capture head texts read =>
    exact (ends_invokeRaw r _ _ _).bind fun v _ => .pure (shape_push before (.capture head texts read) v)
  | call head values => 
    exact (ends_announce r _ _).bind fun _ _ => .pure (.operand rfl (.call before head values rfl))
  | parameter read alone => 
    exact (ends_parameter r _ _).bind fun v _ => .pure (shape_push before (.parameter read alone) v)
  | failure e => exact .raise (.inl ⟨e, rfl⟩)

private theorem failure_sound (m : Machine) (e : EvalError) :
    Eval.Ends (Eval.raise e : Eval σ Machine) (Shape r whole) (r.MayFail m.expression) :=
  .raise (.inl ⟨e, rfl⟩)

private theorem close_sound {m : Machine} (ready : m.expectOperator = true)
    (known : Complete r whole (Precedence.power + 1) t m.stack m.values.length) (delimits : r.vocabulary.Delimits ')' t rest) :
    Eval.Ends ({ m with rest }.close r) (Shape r whole) (r.MayFail m.expression) := by
  rw [close, reduceGroup_eq]
  refine (reduce_sound (m := { m with rest }) (by decide) known).bind fun left reduced => ?_
  obtain ⟨expression, rfl, still, -, known⟩ := reduced
  split
  · next stack top =>
    rw [top] at known
    exact .pure (.operator (still.trans ready) (known.group delimits))
  · next callee base stack top =>
    rw [top] at known
    obtain ⟨t₁, name, es, rfl, before, more, closed⟩ := known.call delimits
    change Eval.Ends _ _ (r.MayFail m.expression)
    rw [show m.expression = left.expression from expression.symm]
    exact finishCall_sound (m := { left with stack }) before closed (show base ≤ left.values.length by omega)
  · exact failure_sound m _
  · exact failure_sound m _

private theorem comma_sound {m : Machine} (known : Complete r whole (Precedence.power + 1) t m.stack m.values.length)
    (delimits : r.vocabulary.Delimits ',' t rest) (offset : Nat) :
    Eval.Ends ({ m with rest }.comma r offset) (Shape r whole) (r.MayFail m.expression) := by
  rw [comma, reduceGroup_eq]
  refine (reduce_sound (m := { m with rest }) (by decide) known).bind fun left reduced => ?_
  obtain ⟨-, rfl, -, -, known⟩ := reduced
  split
  · next callee base stack top =>
    rw [top] at known
    refine .pure (.operand rfl ?_)
    change Unfinished _ _ left.stack left.values.length left.rest
    rw [top]
    exact known.comma delimits
  · exact failure_sound m _
  · exact failure_sound m _

private theorem colon_sound {m : Machine} (known : Complete r whole (Precedence.power + 1) t m.stack m.values.length)
    (delimits : r.vocabulary.Delimits ':' t rest) :
    Eval.Ends ({ m with rest }.colon r) (Shape r whole) (r.MayFail m.expression) := by
  rw [colon, reduceGroup_eq]
  refine (reduce_sound (m := { m with rest }) (by decide) known).bind fun left reduced => ?_
  obtain ⟨-, rfl, -, -, known⟩ := reduced
  split
  · next stack top =>
    rw [top] at known
    exact .pure (.operand rfl (known.colon delimits))
  · exact failure_sound m _

theorem operator_sound {m : Machine} (at_token : m.rest = skip t) (ready : m.expectOperator = true)
    (known : Complete r whole (Precedence.power + 1) t m.stack m.values.length) :
    Eval.Ends (m.operator r) (Shape r whole) (r.MayFail m.expression) := by
  have step := operator_step r at_token
  generalize m.operator r = action at step ⊢
  cases step with
  | @connective op more read =>
    refine (reduce_sound (m := { m with rest := more }) (precedence_range op).2.1 known).bind fun left reduced => ?_
    obtain ⟨-, rfl, -, below, known⟩ := reduced
    exact .pure (.operand rfl (known.connective below read))
  | close delimits => exact close_sound ready known delimits
  | comma delimits => exact comma_sound known delimits _
  | @question more delimits =>
    refine (reduce_sound (m := { m with rest := more }) (by decide) known).bind fun left reduced => ?_
    obtain ⟨-, rfl, -, below, known⟩ := reduced
    exact .pure (.operand rfl (known.question below delimits))
  | colon delimits => exact colon_sound known delimits
  | failure e => exact failure_sound m e

/-- A step leads from a shape to a shape. -/
theorem advance_sound {m : Machine} (shape : Shape r whole m) (inside : m.rest <:+ m.expression) :
    Eval.Ends (m.atToken.advance r) (Shape r whole) (r.MayFail m.expression) := by
  unfold advance
  cases shape with
  | operand ready before =>
    rw [if_neg (by simp [atToken, ready])]
    exact operand_sound (m := m.atToken) rfl ((skip_suffix m.rest).trans inside) before
  | operator ready known =>
    rw [if_pos (by simpa [atToken] using ready)]
    exact operator_sound (m := m.atToken) rfl ready known

theorem finish_sound {m : Machine} (shape : Shape r m.expression m) (exhausted : skip m.rest = []) :
    Eval.Ends (m.atToken.finish r) (fun _ => ∃ e, r.vocabulary.Reads m.expression e) (r.MayFail m.expression) := by
  have failure (e : EvalError) : Eval.Ends (Eval.raise e : Eval σ Float)
      (fun _ => ∃ e, r.vocabulary.Reads m.expression e) (r.MayFail m.expression) := .raise (.inl ⟨e, rfl⟩)
  unfold finish
  cases shape with
  | operand ready before =>
    rw [if_pos (by simp [atToken, ready])]
    exact failure _
  | operator ready known =>
    rw [if_neg (by simp [atToken, ready]), reduceGroup_eq]
    refine (reduce_sound (m := m.atToken) (by decide) known).bind fun left reduced => ?_
    obtain ⟨-, -, -, below, height, t, e, before, derives, count⟩ := reduced
    split
    · exact failure _
    · exact failure _
    · exact failure _
    · next value not_group not_call not_question =>
      -- Nothing is left on the stack, for everything else on it is applied.
      cases empty : left.stack with
      | nil =>
        rw [empty] at before derives
        cases before
        exact .pure ⟨e, m.rest, derives, exhausted⟩
      | cons op stack =>
        have stays := below op (by rw [empty]; rfl)
        rw [op.binds_one] at stays
        cases op with
        | parenthesis => exact absurd empty (not_group stack)
        | call callee base => exact absurd empty (not_call callee base stack)
        | question => exact absurd empty (not_question stack)
        | _ => cases stays
    · exact failure _

/-- The scan from a shape on ends with a value only if the whole text derives. -/
theorem proceed_sound {m : Machine} (shape : Shape r m.expression m) (inside : m.rest <:+ m.expression) :
    Eval.Ends (m.proceed r) (fun _ => ∃ e, r.vocabulary.Reads m.expression e) (r.MayFail m.expression) := by
  induction left : m.remaining using Nat.strongRecOn generalizing m with
  | ind left ih => 
    rw [proceed_eq]
    split
    · next exhausted => exact finish_sound shape (by simpa using exhausted)
    · refine ((advance_sound shape inside).both (advance_progress r m)).bind fun next => ?_
      rintro ⟨shape, same, suffix, less⟩
      rw [← same] at shape inside ⊢
      exact ih _ (left ▸ less) shape (suffix.trans inside) rfl

/-- A text that does not derive has no value. -/
theorem run_sound (r : Resolver σ) (t : Text) :
    Eval.Ends (run r t) (fun _ => ∃ e, r.vocabulary.Reads t e) (r.MayFail t) := by
  unfold run
  dsimp only
  split
  · exact .raise (.inl ⟨_, rfl⟩)
  · split
    · exact .raise (.inl ⟨_, rfl⟩)
    · rw [scan_eq_proceed r (by simp [remaining])]
      exact proceed_sound (.operand rfl .start) List.suffix_rfl

end Machine

end Netlist
