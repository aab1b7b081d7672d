import Netlist.Proofs.Decimal.Positional
import Netlist.Proofs.Expression.Reference
import Netlist.Proofs.Expression.Visibility
import Netlist.Proofs.Library.Derivatives

/-!
Polynomials written as expressions. The text of a polynomial reads as the sum of its terms, each of which is its
coefficient multiplied by one variable after the other; a minus sign in front of a coefficient belongs to the
coefficient. So the text has the value that this order of operations gives, which is that of the polynomial where
arithmetic is exact.
-/
namespace Netlist

/-! ### Texts with values -/

section Denotes

variable {σ : Type} {r : Resolver σ} {text t t₁ t₂ rest : Text} {n : Nat} {v a b : Float}

/-- Whether a text up to a rest is an expression with the given value, whose operators bind at least as tightly as a
precedence. -/
def Denotes (r : Resolver σ) (text : Text) (n : Nat) (t : Text) (v : Float) (rest : Text) : Prop :=
  ∃ e : Tree, Derives r.vocabulary false (.level n) t e rest ∧ e.eval r text = pure v

theorem Denotes.lower {p : Nat} (denotes : Denotes r text n t v rest) (le : p ≤ n) : Denotes r text p t v rest := by
  obtain ⟨e, derives, value⟩ := denotes
  exact ⟨e, derives.lower le, value⟩

theorem Denotes.literal (start : (skip t).head?.any isNumeralStart = true) (read : Number.literal true (skip t) = .found v rest) :
    Denotes r text (Precedence.power + 1) t v rest :=
  ⟨.literal v, .literal start read, by rw [Tree.eval]⟩

theorem Denotes.negate (signed : sign? t = some (.negate, t₁)) (operand : Denotes r text Precedence.sign t₁ v rest) :
    Denotes r text Precedence.sign t (-v) rest := by
  obtain ⟨e, derives, value⟩ := operand
  refine ⟨.sign .negate e, .sign signed derives, ?_⟩
  rw [Tree.eval, value, pure_bind]
  rfl

theorem Denotes.parameter {name : Text} (read : identifier? t = some (name, rest)) (alone : callHead? t = none)
    (value : r.parameter name text = pure v) : Denotes r text (Precedence.power + 1) t v rest :=
  ⟨.parameter name, .parameter read alone, by rw [Tree.eval, value]⟩

/-- Every operator but the power is applied to the values of its operands. -/
theorem Denotes.binary (op : BinaryOperator) (plain : op ≠ .power) (left : Denotes r text op.precedence t a t₁)
    (read : r.vocabulary.connective? t₁ = some (.builtin op, t₂)) (right : Denotes r text (op.precedence + 1) t₂ b rest) :
    Denotes r text op.precedence t (op.apply a b) rest := by
  obtain ⟨left, derivesLeft, valueLeft⟩ := left
  obtain ⟨right, derivesRight, valueRight⟩ := right
  have derivesLeft : Derives r.vocabulary false (.level (Connective.builtin op).precedence) t left t₁ := derivesLeft
  refine ⟨.binary (.builtin op) left right, derivesLeft.connective read derivesRight, ?_⟩
  rw [Tree.eval, valueLeft, pure_bind, valueRight, pure_bind]
  cases op <;> first | rfl | exact absurd rfl plain

end Denotes

/-! ### What stands between operands -/

def IsIdentifier (name : Text) : Prop := ∃ c more, name = c :: more ∧ isIdentifierStart c = true ∧ more.all isIdentifierPart = true

/-- What stands behind an operand of a rendered polynomial: a variable, another term, or nothing. -/
inductive Continues : Text → Prop
  | done : Continues []
  | times {name : Text} (identifier : IsIdentifier name) (rest : Text) : Continues ('*' :: (name ++ rest))
  | plus (rest : Text) : Continues (chars " + " ++ rest)

theorem Continues.halts {rest : Text} (continues : Continues rest) : Number.Halts rest := by
  intro c first
  cases continues with
  | done => cases first
  | times => cases first; exact .inl rfl
  | plus => cases first; exact .inr rfl

section Operators

variable {w : Vocabulary} {name rest : Text}

theorem afterOperator?_star_eq_none {f : Function} (star : f.name = chars "**") (identifier : IsIdentifier name) (rest : Text) :
    afterOperator? f ('*' :: (name ++ rest)) = none := by
  obtain ⟨c, more, rfl, start, -⟩ := identifier
  have ascii : c.toNat < 128 := by
    rcases range_of_identifierStart start with upper | lower | rfl
    · omega
    · omega
    · decide
  have all : ∀ c : Char, c.toNat < 128 → isIdentifierStart c = true → '*'.toLower ≠ c.toLower := forall_ascii (by decide +kernel)
  have other : afterName? ['*'] (c :: (more ++ rest)) = none := if_neg (all c ascii start)
  unfold afterOperator?
  rw [star]
  change (afterName? ['*'] (c :: (more ++ rest))).filter _ = none
  rw [other]
  rfl

/-- The operators of the library do not get in the way of those that are built in. -/
theorem connective?_times (stars : ∀ f ∈ w.operators, f.name = chars "**") (identifier : IsIdentifier name) (rest : Text) :
    w.connective? ('*' :: (name ++ rest)) = some (.builtin .multiply, name ++ rest) := by
  have absent : longestOperator? w.operators ('*' :: (name ++ rest)) = none :=
    longestOperator?_eq_none fun f member => afterOperator?_star_eq_none (stars f member) identifier rest
  unfold Vocabulary.connective?
  rw [show skip ('*' :: (name ++ rest)) = '*' :: (name ++ rest) from rfl, absent]
  rfl

theorem connective?_plus (stars : ∀ f ∈ w.operators, f.name = chars "**") (rest : Text) :
    w.connective? (chars " + " ++ rest) = some (.builtin .add, ' ' :: rest) := by
  have absent : longestOperator? w.operators ('+' :: ' ' :: rest) = none := by
    refine longestOperator?_eq_none fun f member => ?_
    rw [afterOperator?, stars f member]
    rfl
  unfold Vocabulary.connective?
  rw [show skip (chars " + " ++ rest) = '+' :: ' ' :: rest from rfl, absent]
  rfl

end Operators

section Operands

variable {name rest : Text}

/-- White space in front of a text ends at a character of a kind that no white space is of. -/
theorem skip_cons_of {p : Char → Bool} (off : [' ', '\t', '\n', '\x0c', '\r'].all (fun c => !p c) = true) {c : Char}
    (holds : p c = true) (t : Text) : skip (c :: t) = c :: t := by
  refine List.dropWhile_cons_of_neg fun blank => ?_
  simp only [isAsciiSpace, Bool.or_eq_true, beq_iff_eq, or_assoc] at blank
  have other := List.all_eq_true.mp off c (by simpa using blank)
  simp [holds] at other

theorem identifier?_continues (identifier : IsIdentifier name) (continues : Continues rest) :
    identifier? (name ++ rest) = some (name, rest) := by
  obtain ⟨c, more, rfl, start, all⟩ := identifier
  have parts : ∀ d ∈ c :: more, isIdentifierPart d = true :=
    List.forall_mem_cons.mpr ⟨isIdentifierPart_of_isIdentifierStart start, List.all_eq_true.mp all⟩
  have apart : Apart isIdentifierPart rest := continues.halts.apart (by decide) (by decide)
  have here : skip (c :: more ++ rest) = c :: more ++ rest := skip_cons_of (by decide) start _
  unfold identifier?
  rw [here, apart.takeWhile_all parts, apart.dropWhile_all parts]
  exact if_pos start

theorem callHead?_continues (identifier : IsIdentifier name) (continues : Continues rest) : callHead? (name ++ rest) = none := by
  unfold callHead?
  rw [identifier?_continues identifier continues]
  cases continues <;> rfl

theorem skip_positional {x : Float} {s : Float.Model.UnpackedFloat.Sign} {m : Nat} {e : Int} {positive : 0 < m}
    (is : Double.parts x = .finite s m e positive) (u : Text) : skip (Decimal.positional x ++ u) = Decimal.positional x ++ u := by
  cases s with
  | positive =>
    obtain ⟨d, digits, start, digit⟩ := Decimal.exists_digit_positional is
    rw [start]
    exact skip_cons_of (by decide) digit _
  | negative =>
    rw [Decimal.positional_of_negative is]
    rfl

variable {σ : Type} {r : Resolver σ} {text t : Text}

/-- A positive number in front of what follows an operand. -/
theorem Denotes.positional {x : Float} {m : Nat} {e : Int} {positive : 0 < m} (is : Double.parts x = .finite .positive m e positive)
    (reads : Decimal.parse? (Decimal.positional x) = some x) (here : skip t = Decimal.positional x ++ rest) (halts : Number.Halts rest) :
    Denotes r text (Precedence.power + 1) t x rest := by
  obtain ⟨d, digits, start, digit⟩ := Decimal.exists_digit_positional is
  refine Denotes.literal ?_ ?_
  · rw [here, start]
    simp [isNumeralStart, digit]
  · rw [here, Decimal.literal_positional is reads halts]

/-- A coefficient in front of what follows an operand, with its sign. -/
theorem Denotes.coefficient {c : Float} (finite : c.isFinite = true) (nonzero : (c == 0) = false)
    (reads : Decimal.parse? (Decimal.positional c.abs) = some c.abs) (here : skip t = Decimal.positional c ++ rest)
    (halts : Number.Halts rest) : Denotes r text Precedence.sign t c rest := by
  obtain ⟨s, m, e, positive, is⟩ := Double.exists_finite finite nonzero
  have magnitude : Double.parts c.abs = .finite .positive m e positive := by
    rw [Double.parts_abs, is]
    rfl
  cases s with
  | positive =>
    have own : c.abs = c := Double.eq_of_parts (magnitude.trans is.symm)
    rw [own] at reads
    exact (Denotes.positional is reads here halts).lower (by decide)
  | negative =>
    rw [Decimal.positional_of_negative is] at here
    have own : -c.abs = c := by
      apply Double.eq_of_parts
      rw [Double.parts_neg, magnitude, is]
      rfl
    have signed : sign? t = some (.negate, Decimal.positional c.abs ++ rest) := by
      rw [sign?, here]
      rfl
    have operand : Denotes r text (Precedence.power + 1) (Decimal.positional c.abs ++ rest) c.abs rest :=
      Denotes.positional magnitude reads (skip_positional magnitude rest) halts
    rw [← own]
    exact .negate signed (operand.lower (by decide))

end Operands

/-! ### Texts of sums -/

namespace Polynomial

def factorsText (names : List Text) (term : List Nat) : Text := term.flatMap fun i => '*' :: names.getD i []

def summandText (names : List Text) (summand : Float × List Nat) : Text :=
  Decimal.positional summand.1 ++ factorsText names summand.2

def moreText (names : List Text) (summands : List (Float × List Nat)) : Text :=
  summands.flatMap fun summand => chars " + " ++ summandText names summand

theorem joined_cons (separator first : Text) (more : List Text) :
    joined separator (first :: more) = first ++ more.flatMap (separator ++ ·) := by
  induction more generalizing first with
  | nil => exact (List.append_nil first).symm
  | cons next more ih => rw [joined, ih, List.flatMap_cons, List.append_assoc, List.append_assoc]

variable {α : Type} [Scalar α]

def product (xs : List α) (summand : α × List Nat) : α := summand.2.foldl (fun v i => v * variableAt xs i) summand.1

def nonzeroSummands (p : Polynomial α) : List (α × List Nat) := p.summands.filter fun summand => !(summand.1 == Scalar.zero)

/-- What the text of a polynomial adds up: the products of the summands that are not zero, from left to right, or zero
if there are none. -/
def rendered (p : Polynomial α) (xs : List α) : α :=
  match p.nonzeroSummands with
  | [] => Scalar.zero
  | first :: more => more.foldl (fun v summand => v + product xs summand) (product xs first)

end Polynomial

section Sums
open Netlist.Polynomial

variable {σ : Type} {r : Resolver σ} {text t rest : Text} {names : List Text} {xs : List Float} {v : Float}

def Names (r : Resolver σ) (text : Text) (names : List Text) (xs : List Float) (i : Nat) : Prop :=
  IsIdentifier (names.getD i []) ∧ r.parameter (names.getD i []) text = pure (variableAt xs i)

structure Readable (r : Resolver σ) (text : Text) (names : List Text) (xs : List Float) (summand : Float × List Nat) : Prop where
  finite : summand.1.isFinite = true
  nonzero : (summand.1 == 0) = false
  reads : Decimal.parse? (Decimal.positional summand.1.abs) = some summand.1.abs
  named : ∀ i ∈ summand.2, Names r text names xs i

theorem Readable.skip {summand : Float × List Nat} (readable : Readable r text names xs summand) (u : Text) :
    skip (summandText names summand ++ u) = summandText names summand ++ u := by
  obtain ⟨s, m, e, positive, is⟩ := Double.exists_finite readable.finite readable.nonzero
  rw [summandText, List.append_assoc]
  exact skip_positional is _

theorem continues_factors {term : List Nat} (named : ∀ i ∈ term, Names r text names xs i) (continues : Continues rest) :
    Continues (factorsText names term ++ rest) := by
  cases term with
  | nil => exact continues
  | cons i term =>
    rw [factorsText, List.flatMap_cons, List.cons_append, List.cons_append, List.append_assoc]
    exact .times (named i List.mem_cons_self).1 _

theorem continues_more (names : List Text) (summands : List (Float × List Nat)) : Continues (moreText names summands) := by
  cases summands with
  | nil => exact .done
  | cons summand summands =>
    rw [moreText, List.flatMap_cons, List.append_assoc]
    exact .plus _

/-- The variables of a term are multiplied to what stands in front of them. -/
theorem Denotes.factors (stars : ∀ f ∈ r.operators, f.name = chars "**") {term : List Nat}
    (named : ∀ i ∈ term, Names r text names xs i) (continues : Continues rest)
    (left : Denotes r text BinaryOperator.multiply.precedence t v (factorsText names term ++ rest)) :
    Denotes r text BinaryOperator.multiply.precedence t (term.foldl (fun v i => v * variableAt xs i) v) rest := by
  -- The operators associate to the left, so what is read so far grows at its end and its value is general.
  induction term generalizing v with
  | nil => exact left
  | cons i term ih =>
    obtain ⟨⟨identifier, value⟩, named⟩ := List.forall_mem_cons.mp named
    rw [factorsText, List.flatMap_cons, List.cons_append, List.cons_append, List.append_assoc] at left
    have behind : Continues (factorsText names term ++ rest) := continues_factors named continues
    have factor : Denotes r text (Precedence.power + 1) (names.getD i [] ++ (factorsText names term ++ rest)) (variableAt xs i)
        (factorsText names term ++ rest) :=
      .parameter (identifier?_continues identifier behind) (callHead?_continues identifier behind) value
    exact ih named (.binary .multiply (by decide) left (connective?_times stars identifier _) (factor.lower (by decide)))

theorem Denotes.summand (stars : ∀ f ∈ r.operators, f.name = chars "**") {summand : Float × List Nat}
    (readable : Readable r text names xs summand) (continues : Continues rest) (here : skip t = summandText names summand ++ rest) :
    Denotes r text BinaryOperator.multiply.precedence t (product xs summand) rest := by
  have behind := continues_factors readable.named continues
  rw [summandText, List.append_assoc] at here
  have coefficient : Denotes r text Precedence.sign t summand.1 (factorsText names summand.2 ++ rest) :=
    .coefficient readable.finite readable.nonzero readable.reads here behind.halts
  exact Denotes.factors stars readable.named continues (coefficient.lower (by decide))

/-- Summands are added to what stands in front of them. -/
theorem Denotes.sum (stars : ∀ f ∈ r.operators, f.name = chars "**") {summands : List (Float × List Nat)}
    (readable : ∀ summand ∈ summands, Readable r text names xs summand)
    (left : Denotes r text BinaryOperator.add.precedence t v (moreText names summands)) :
    Denotes r text BinaryOperator.add.precedence t (summands.foldl (fun v summand => v + product xs summand) v) [] := by
  induction summands generalizing v with
  | nil => exact left
  | cons summand summands ih =>
    obtain ⟨here, readable⟩ := List.forall_mem_cons.mp readable
    rw [moreText, List.flatMap_cons, List.append_assoc] at left
    have next : Denotes r text BinaryOperator.multiply.precedence (' ' :: (summandText names summand ++ moreText names summands))
        (product xs summand) (moreText names summands) :=
      .summand stars here (continues_more names summands) (here.skip _)
    exact ih readable (.binary .add (by decide) left (connective?_plus stars _) next)

end Sums

/-! ### The text of a polynomial -/

namespace Polynomial

theorem toExpression_eq (p : Polynomial Float) (names : List Text) : p.toExpression names =
    if (p.nonzeroSummands.map (summandText names)).isEmpty then ['0']
    else joined (chars " + ") (p.nonzeroSummands.map (summandText names)) := rfl

theorem toExpression_of_nil {p : Polynomial Float} (nothing : p.nonzeroSummands = []) (names : List Text) :
    p.toExpression names = ['0'] := by
  rw [toExpression_eq, nothing]
  rfl

theorem toExpression_of_cons {p : Polynomial Float} {first : Float × List Nat} {more : List (Float × List Nat)}
    (summands : p.nonzeroSummands = first :: more) (names : List Text) :
    p.toExpression names = summandText names first ++ moreText names more := by
  rw [toExpression_eq, summands, List.map_cons, if_neg (by simp), joined_cons, List.flatMap_map, moreText]

/-! ### Exact arithmetic -/

theorem product_eq (xs : List ℚ) (summand : ℚ × List Nat) : product xs summand = summand.1 * termValue xs summand.2 := by
  obtain ⟨c, term⟩ := summand
  unfold product
  induction term generalizing c with
  | nil => simp [termValue, Scalar.product_eq]
  | cons i term ih => rw [List.foldl_cons, ih, termValue_cons, mul_assoc]

theorem sum_nonzeroSummands (p : Polynomial ℚ) (xs : List ℚ) :
    (p.nonzeroSummands.map (product xs)).sum = (p.summands.map (product xs)).sum := by
  unfold nonzeroSummands
  induction p.summands with
  | nil => rfl
  | cons summand summands ih =>
    rw [List.map_cons, List.sum_cons, List.filter_cons, ← ih]
    split
    · rw [List.map_cons, List.sum_cons]
    · next zero =>
      have zero : summand.1 = 0 := by simpa [Scalar.zero] using zero
      rw [product_eq, zero, zero_mul, zero_add]

/-- In exact arithmetic neither the order of the operations nor the summands that are left out matter. -/
theorem rendered_eq_eval (p : Polynomial ℚ) (xs : List ℚ) : p.rendered xs = p.eval xs := by
  have added (summands : List (ℚ × List Nat)) (v : ℚ) :
      summands.foldl (fun v summand => v + product xs summand) v = v + (summands.map (product xs)).sum := by
    induction summands generalizing v with
    | nil => exact (add_zero v).symm
    | cons summand summands ih => rw [List.foldl_cons, ih, List.map_cons, List.sum_cons, add_assoc]
  calc
    p.rendered xs = (p.nonzeroSummands.map (product xs)).sum := by
      unfold rendered
      cases p.nonzeroSummands with
      | nil => rfl
      | cons first more => exact added more _
    _ = (p.summands.map (product xs)).sum := sum_nonzeroSummands p xs
    _ = p.eval xs := by
      rw [Polynomial.eval, Scalar.sum_eq]
      exact congrArg List.sum (List.map_congr_left fun summand _ => product_eq xs summand)

end Polynomial

/-! ### Evaluation -/

/-- The only operators of the library are powers. -/
theorem Scope.HoldsLibrary.stars {s : Scope} (library : s.HoldsLibrary) : ∀ f ∈ s.operators, f.name = chars "**" := by
  intro f member
  have operator : f.isOperator = true := List.of_mem_filter member
  have all : ((Library.functions s.dialect).all fun f => !f.isOperator || f.name == chars "**") = true := by
    cases s.dialect <;> rfl
  simpa [operator] using List.all_eq_true.mp all f (library f (.inr member))

theorem Scope.evaluate_of_denotes {s : Scope} {simulation : Option Simulation} {t : Text} {v : Float} {n : Nat}
    (denotes : Denotes (s.meaning simulation t) t n t v []) (least : Precedence.conditional ≤ n) : s.evaluate simulation t = pure v := by
  obtain ⟨e, derives, value⟩ := denotes.lower least
  have reads : (s.meaning simulation t).vocabulary.Reads t e := ⟨[], derives, rfl⟩
  rw [evaluate_eq_run, reads.run_eq, value]

theorem Scope.names_of_parameter {s : Scope} {simulation : Option Simulation} {text : Text} {names : List Text} {xs : List Float}
    {i : Nat} (identifier : IsIdentifier (names.getD i [])) (assigned : s.parameter? (names.getD i []) = some (Polynomial.variableAt xs i)) :
    Names (s.meaning simulation text) text names xs i := by
  refine ⟨identifier, ?_⟩
  dsimp only [meaning, resolver]
  rw [assigned]
  rfl

namespace Polynomial

/-- A text of summands that read back has the value that it adds up to. -/
theorem evaluate_of_readable {p : Polynomial Float} {names : List Text} {s : Scope} (library : s.HoldsLibrary)
    {simulation : Option Simulation} {xs : List Float} (readable : ∀ summand ∈ p.nonzeroSummands,
      Readable (s.meaning simulation (p.toExpression names)) (p.toExpression names) names xs summand) :
    s.evaluate simulation (p.toExpression names) = pure (p.rendered xs) := by
  unfold rendered
  cases is : p.nonzeroSummands with
  | nil =>
    rw [toExpression_of_nil is]
    exact Scope.evaluate_of_denotes (.literal rfl rfl) (by decide)
  | cons first more =>
    rw [is] at readable
    obtain ⟨here, readable⟩ := List.forall_mem_cons.mp readable
    have start : skip (p.toExpression names) = summandText names first ++ moreText names more := by
      rw [toExpression_of_cons is, here.skip]
    have front := Denotes.summand library.stars here (continues_more names more) start
    exact Scope.evaluate_of_denotes (Denotes.sum library.stars readable (front.lower (by decide))) (by decide)

theorem mem_of_nonzero {dimension : Nat} {coefficients : List Float} {c : Float}
    (member : c ∈ (ofCoefficients dimension coefficients).coefficients) (nonzero : (c == 0) = false) : c ∈ coefficients := by
  have zero : ((0 : Float) == 0) = true := by decide +kernel
  unfold ofCoefficients at member
  dsimp only at member
  split at member
  · rcases List.mem_cons.mp member with rfl | given
    · exact absurd (zero.symm.trans nonzero) (by decide)
    · exact given
  · exact member

/-- The text of a polynomial over identifiers has, in a scope with the functions of the library, the value of adding
up the products of its coefficients and variables from left to right, without those whose coefficient is zero. In
exact arithmetic this is the value of the polynomial. -/
theorem evaluate_toExpression (dimension : Nat) {coefficients : List Float} (finite : ∀ c ∈ coefficients, c.isFinite = true)
    (reads : ∀ c ∈ coefficients, Decimal.parse? (Decimal.positional c.abs) = some c.abs) {names : List Text}
    (enough : dimension ≤ names.length) (identifiers : ∀ name ∈ names, IsIdentifier name) {s : Scope} (library : s.HoldsLibrary)
    {xs : List Float} (assigned : ∀ i < dimension, s.parameter? (names.getD i []) = some (variableAt xs i)) :
    (∀ simulation, s.evaluate simulation ((ofCoefficients dimension coefficients).toExpression names) =
      pure ((ofCoefficients dimension coefficients).rendered xs)) ∧
    ∀ (coefficients ys : List ℚ),
      (ofCoefficients dimension coefficients).rendered ys = (ofCoefficients dimension coefficients).eval ys := by
  refine ⟨fun simulation => evaluate_of_readable library fun (c, term) member => ?_, fun _ ys => rendered_eq_eval _ ys⟩
  obtain ⟨member, nonzero⟩ := List.mem_filter.mp member
  have nonzero : (c == 0) = false := (Bool.not_eq_true' _).mp nonzero
  obtain ⟨among, isTerm⟩ := List.of_mem_zip member
  have given : c ∈ coefficients := mem_of_nonzero among nonzero
  refine ⟨finite c given, nonzero, reads c given, fun i inside => ?_⟩
  have below := lt_of_mem_firstTerms isTerm i inside
  refine Scope.names_of_parameter ?_ (assigned i below)
  rw [List.getD_eq_getElem _ _ (below.trans_le enough)]
  exact identifiers _ (List.getElem_mem _)

/-- A leading and a later negative coefficient, and one that is left out. -/
theorem evaluate_toExpression_signs :
    let s := ((Scope.standard .spice3f5).store ['x'] 4).store ['y'] 0.5
    (∀ c ∈ [-1, 0, -2.5, (3 : Float)], c.isFinite = true) ∧
    (∀ c ∈ [-1, 0, -2.5, (3 : Float)], Decimal.parse? (Decimal.positional c.abs) = some c.abs) ∧
    2 ≤ [['x'], ['y']].length ∧ (∀ name ∈ [['x'], ['y']], IsIdentifier name) ∧ s.HoldsLibrary ∧
    (∀ i < 2, s.parameter? ([['x'], ['y']].getD i []) = some (variableAt [4, 0.5] i)) ∧
    (ofCoefficients 2 [-1, 0, -2.5, (3 : Float)]).toExpression [['x'], ['y']] = chars "-1 + -2.5*y + 3*x*x" ∧
    s.evaluate none (chars "-1 + -2.5*y + 3*x*x") = pure 45.75 := by
  intro s
  have finite : ∀ c ∈ [-1, 0, -2.5, (3 : Float)], c.isFinite = true := by decide +kernel
  have reads : ∀ c ∈ [-1, 0, -2.5, (3 : Float)], Decimal.parse? (Decimal.positional c.abs) = some c.abs := by decide +kernel
  have enough : 2 ≤ [['x'], ['y']].length := by decide
  have identifiers : ∀ name ∈ [['x'], ['y']], IsIdentifier name :=
    List.forall_mem_cons.mpr ⟨⟨'x', [], rfl, rfl, rfl⟩, List.forall_mem_singleton.mpr ⟨'y', [], rfl, rfl, rfl⟩⟩
  have library : s.HoldsLibrary := ((Scope.holdsLibrary_standard .spice3f5).store ['x'] 4).store ['y'] 0.5
  have assigned : ∀ i < 2, s.parameter? ([['x'], ['y']].getD i []) = some (variableAt [4, 0.5] i) := by decide +kernel
  have text : (ofCoefficients 2 [-1, 0, -2.5, (3 : Float)]).toExpression [['x'], ['y']] = chars "-1 + -2.5*y + 3*x*x" := by
    decide +kernel
  have value : (ofCoefficients 2 [-1, 0, -2.5, (3 : Float)]).rendered [4, 0.5] = 45.75 := by decide +kernel
  have evaluated := (evaluate_toExpression 2 finite reads enough identifiers library assigned).1 none
  rw [text, value] at evaluated
  exact ⟨finite, reads, enough, identifiers, library, assigned, text, evaluated⟩

end Polynomial

end Netlist
