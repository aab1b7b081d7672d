import Netlist.Proofs.Expression.Boundary

/-!
Parentheses and quotes in an expression. The texts of arguments are found by a count of parentheses outside of
quotes that knows nothing of tokens; over what the grammar derives it comes back to where it started.
-/
namespace Netlist

/-! ### The count -/

structure Nesting where
  depth : Nat
  quoted : Bool
  deriving DecidableEq

namespace Nesting
variable {n n' : Nesting} {c : Char} {p : Text}

/-- The place behind a character. Nothing stands behind a parenthesis that closes none. -/
def step : Nesting → Char → Option Nesting
  | ⟨depth, true⟩, c => some ⟨depth, c != '"'⟩
  | ⟨depth, false⟩, c =>
    if c = '"' then some ⟨depth, true⟩
    else if c = '(' then some ⟨depth + 1, false⟩
    else if c = ')' then if depth = 0 then none else some ⟨depth - 1, false⟩
    else some ⟨depth, false⟩

def after (n : Nesting) (t : Text) : Option Nesting := t.foldlM step n

def isPlain (c : Char) : Bool := c != '"' && c != '(' && c != ')'

inductive Step : Nesting → Char → Nesting → Prop
  | inside (depth : Nat) (c : Char) : Step ⟨depth, true⟩ c ⟨depth, c != '"'⟩
  | quote (depth : Nat) : Step ⟨depth, false⟩ '"' ⟨depth, true⟩
  | opening (depth : Nat) : Step ⟨depth, false⟩ '(' ⟨depth + 1, false⟩
  | closing (depth : Nat) : Step ⟨depth + 1, false⟩ ')' ⟨depth, false⟩
  | plain (depth : Nat) {c : Char} (plain : isPlain c = true) : Step ⟨depth, false⟩ c ⟨depth, false⟩

theorem Step.step_eq (step : Step n c n') : n.step c = some n' := by
  cases step with
  | plain depth plain =>
    simp only [isPlain, Bool.and_eq_true, bne_iff_ne] at plain
    simp [Nesting.step, plain]
  | _ => rfl

theorem step_cases (step : n.step c = some n') : Step n c n' := by
  obtain ⟨depth, _ | _⟩ := n
  · simp only [Nesting.step] at step
    split_ifs at step with quote opening closing outermost
    · cases step
      exact quote ▸ .quote depth
    · cases step
      exact opening ▸ .opening depth
    · cases step
      obtain ⟨depth, rfl⟩ := Nat.exists_eq_add_one_of_ne_zero outermost
      exact closing ▸ .closing depth
    · cases step
      exact .plain depth (by simp [isPlain, quote, opening, closing])
  · cases step
    exact .inside depth c

theorem step_eq_none (stuck : n.step c = none) : n = ⟨0, false⟩ ∧ c = ')' := by
  obtain ⟨depth, _ | _⟩ := n
  · simp only [Nesting.step] at stuck
    split_ifs at stuck with _ _ closing outermost
    exact ⟨by rw [outermost], closing⟩
  · cases stuck

theorem after_cons (n : Nesting) (c : Char) (t : Text) : n.after (c :: t) = (n.step c).bind (after · t) := List.foldlM_cons

theorem after_append (n : Nesting) (t u : Text) : n.after (t ++ u) = (n.after t).bind (after · u) := List.foldlM_append

def deeper (n : Nesting) (k : Nat) : Nesting := { n with depth := n.depth + k }

theorem Step.deeper (step : Step n c n') (k : Nat) : Step (n.deeper k) c (n'.deeper k) := by
  cases step with
  | inside => exact .inside _ _
  | quote => exact .quote _
  | opening depth =>
    have more := Step.opening (depth + k)
    rwa [Nat.add_right_comm] at more
  | closing depth =>
    have more := Step.closing (depth + k)
    rwa [Nat.add_right_comm] at more
  | plain _ plain => exact .plain _ plain

theorem after_deeper (reaches : n.after p = some n') (k : Nat) : (n.deeper k).after p = some (n'.deeper k) := by
  induction p generalizing n with
  | nil =>
    cases reaches
    rfl
  | cons c p ih =>
    rw [after_cons] at reaches ⊢
    obtain ⟨next, step, reaches⟩ := Option.bind_eq_some_iff.mp reaches
    rw [((step_cases step).deeper k).step_eq]
    exact ih reaches

theorem after_plain (plain : ∀ c ∈ p, isPlain c = true) (depth : Nat) : after ⟨depth, false⟩ p = some ⟨depth, false⟩ := by
  induction p with
  | nil => rfl
  | cons c p ih =>
    rw [after_cons, (Step.plain depth (plain c List.mem_cons_self)).step_eq]
    exact ih fun d inside => plain d (List.mem_cons_of_mem c inside)

theorem step_toLower (n : Nesting) (c : Char) : n.step c.toLower = n.step c := by
  rcases Nat.lt_or_ge c.toNat 128 with ascii | beyond
  · have same : (c.toLower = '"' ↔ c = '"') ∧ (c.toLower = '(' ↔ c = '(') ∧ (c.toLower = ')' ↔ c = ')') :=
      forall_ascii (P := fun c => (c.toLower = '"' ↔ c = '"') ∧ (c.toLower = '(' ↔ c = '(') ∧ (c.toLower = ')' ↔ c = ')'))
        (by decide) c ascii
    obtain ⟨depth, _ | _⟩ := n
    · simp only [step, same]
    · simp only [step, bne, beq_eq_decide, same]
  · rw [toLower_of_le beyond]

theorem after_asciiLower (n : Nesting) (t : Text) : n.after (asciiLower t) = n.after t := by
  induction t generalizing n with
  | nil => rfl
  | cons c t ih =>
    rw [asciiLower, List.map_cons, after_cons, after_cons, step_toLower]
    exact Option.bind_congr fun n' _ => ih n'

end Nesting

/-- Whether a text closes the parentheses and quotes that it opens, and no others. -/
def Balanced (t : Text) : Prop := Nesting.after ⟨0, false⟩ t = some ⟨0, false⟩

instance (t : Text) : Decidable (Balanced t) := inferInstanceAs (Decidable (Nesting.after ⟨0, false⟩ t = some ⟨0, false⟩))

theorem Balanced.after {t : Text} (balanced : Balanced t) (depth : Nat) :
    Nesting.after ⟨depth, false⟩ t = some ⟨depth, false⟩ := by
  simpa [Nesting.deeper] using Nesting.after_deeper balanced depth

theorem Balanced.of_asciiLower {t u : Text} (balanced : Balanced u) (same : asciiLower t = asciiLower u) : Balanced t := by
  rw [Balanced, ← Nesting.after_asciiLower, same, Nesting.after_asciiLower]
  exact balanced

/-- Whether no comma of a text is outside of all its parentheses and quotes. -/
def Undivided (t : Text) : Prop := ∀ i < t.length, t[i]? = some ',' → ¬ Balanced (t.take i)

instance (t : Text) : Decidable (Undivided t) :=
  inferInstanceAs (Decidable (∀ i < t.length, t[i]? = some ',' → ¬ Balanced (t.take i)))

/-! ### Arguments as texts -/

section Capture
variable {n n' : Nesting} {c : Char} {p t rest : Text} {arguments : List Text}

theorem captureArguments_step (step : n.Step c n') (inside : c = ',' → n ≠ ⟨0, false⟩) (current : Text)
    (done : List Text) (rest : Text) : captureArguments n.depth n.quoted current done (c :: rest) =
      captureArguments n'.depth n'.quoted (c :: current) done rest := by
  rw [captureArguments]
  cases step with
  | inside => rfl
  | quote => rfl
  | opening => rfl
  | closing => rfl
  | plain depth plain =>
    simp only [Nesting.isPlain, Bool.and_eq_true, bne_iff_ne] at plain
    have within : ¬ (c = ',' ∧ depth = 0) := fun outside => inside outside.1 (by rw [outside.2])
    simp [plain, within]

/-- A text that leaves no comma outside of parentheses and quotes is taken up as a whole. -/
theorem captureArguments_after (reaches : n.after p = some n')
    (inside : ∀ q u, p = q ++ ',' :: u → n.after q ≠ some ⟨0, false⟩) (current : Text) (done : List Text) (rest : Text) :
    captureArguments n.depth n.quoted current done (p ++ rest) =
      captureArguments n'.depth n'.quoted (p.reverse ++ current) done rest := by
  induction p generalizing n current with
  | nil =>
    cases reaches
    rfl
  | cons c p ih =>
    rw [Nesting.after_cons] at reaches
    obtain ⟨next, step, reaches⟩ := Option.bind_eq_some_iff.mp reaches
    have first : c = ',' → n ≠ ⟨0, false⟩ := by
      rintro rfl same
      exact inside [] p rfl (by rw [same]; rfl)
    rw [List.cons_append, captureArguments_step (Nesting.step_cases step) first, ih reaches]
    · simp
    · rintro q u rfl outside
      apply inside (c :: q) u rfl
      rw [Nesting.after_cons, step]
      exact outside

theorem captureArguments_closes {current : Text} {done : List Text}
    (read : captureArguments n.depth n.quoted current done t = some (arguments, rest)) :
    ∃ p, t = p ++ ')' :: rest ∧ n.after p = some ⟨0, false⟩ := by
  induction t generalizing n current done with
  | nil => cases read
  | cons c t ih =>
    cases step : n.step c with
    | none =>
      obtain ⟨rfl, rfl⟩ := Nesting.step_eq_none step
      cases read
      exact ⟨[], rfl, rfl⟩
    | some n' =>
      have next : ∃ current done, captureArguments n'.depth n'.quoted current done t = some (arguments, rest) := by
        by_cases outside : c = ',' ∧ n = ⟨0, false⟩
        · obtain ⟨rfl, rfl⟩ := outside
          cases step
          exact ⟨_, _, read⟩
        · rw [captureArguments_step (Nesting.step_cases step) fun comma same => outside ⟨comma, same⟩] at read
          exact ⟨_, _, read⟩
      obtain ⟨current, done, next⟩ := next
      obtain ⟨p, rfl, reaches⟩ := ih next
      refine ⟨c :: p, rfl, ?_⟩
      rw [Nesting.after_cons, step]
      exact reaches

/-- A balanced text is the only argument in front of a closing parenthesis. -/
theorem captureArguments_whole (balanced : Balanced t) (undivided : Undivided t) (solid : trim t ≠ []) :
    captureArguments 0 false [] [] (t ++ [')']) = some ([trim t], []) := by
  have inside (q u : Text) (split : t = q ++ ',' :: u) : Nesting.after ⟨0, false⟩ q ≠ some ⟨0, false⟩ := by
    subst split
    have comma := undivided q.length (by simp) (by simp)
    rwa [List.take_left] at comma
  rw [captureArguments_after (n := ⟨0, false⟩) balanced inside [] [] [')'], List.append_nil]
  simp [captureArguments, solid]

end Capture

/-! ### Derivations -/

/-- Whether a text goes on with another one that stands inside of `k` more parentheses. -/
def Enters (k : Nat) (t rest : Text) : Prop :=
  ∃ p, t = p ++ rest ∧ ∀ depth, Nesting.after ⟨depth, false⟩ p = some ⟨depth + k, false⟩

section Enters
variable {j k : Nat} {t u rest : Text}

theorem Enters.trans (first : Enters j t u) (second : Enters k u rest) : Enters (j + k) t rest := by
  obtain ⟨p, rfl, outer⟩ := first
  obtain ⟨q, rfl, inner⟩ := second
  refine ⟨p ++ q, (List.append_assoc ..).symm, fun depth => ?_⟩
  rw [Nesting.after_append, outer, ← Nat.add_assoc]
  exact inner (depth + j)

theorem enters_plain {p : Text} (plain : ∀ c ∈ p, Nesting.isPlain c = true) (rest : Text) : Enters 0 (p ++ rest) rest :=
  ⟨p, rfl, Nesting.after_plain plain⟩

theorem enters_dropWhile {f : Char → Bool} (plain : ∀ c, f c = true → Nesting.isPlain c = true) (t : Text) :
    Enters 0 t (t.dropWhile f) := by
  have enters := enters_plain (p := t.takeWhile f) (fun c inside => plain c (List.mem_takeWhile_imp inside)) (t.dropWhile f)
  rwa [List.takeWhile_append_dropWhile] at enters

theorem enters_skip (t : Text) : Enters 0 t (skip t) := by
  refine enters_dropWhile (fun c blank => ?_) t
  simp only [isAsciiSpace, Bool.or_eq_true, beq_iff_eq] at blank
  rcases blank with (((rfl | rfl) | rfl) | rfl) | rfl <;> rfl

theorem Enters.opens (enters : Enters k t ('(' :: rest)) : Enters (k + 1) t rest :=
  enters.trans ⟨['('], rfl, fun _ => rfl⟩

theorem Enters.closes (enters : Enters (k + 1) t (')' :: rest)) : Enters k t rest := by
  obtain ⟨p, rfl, reaches⟩ := enters
  refine ⟨p ++ [')'], by simp, fun depth => ?_⟩
  rw [Nesting.after_append, reaches]
  rfl

theorem Enters.passes {c : Char} (plain : Nesting.isPlain c = true) (enters : Enters k t (c :: rest)) : Enters k t rest :=
  enters.trans (enters_plain (p := [c]) (by simpa using plain) rest)

theorem isPlain_of_isIdentifierPart {c : Char} (part : isIdentifierPart c = true) : Nesting.isPlain c = true := by
  by_contra bracket
  simp only [Nesting.isPlain, Bool.and_eq_true, bne_iff_ne, not_and_or, not_not] at bracket
  rcases bracket with (rfl | rfl) | rfl
  all_goals exact absurd part (by decide)

theorem enters_literal {comma : Bool} {v : Float} (read : Number.literal comma t = .found v rest) : Enters 0 t rest := by
  obtain ⟨p, rfl⟩ := (Number.literal_follows read).1
  refine enters_plain (fun c inside => ?_) rest
  have within := Number.endsLiteral_of_literal read inside
  simp only [Number.endsLiteral, Bool.or_eq_false_iff] at within
  simp [Nesting.isPlain, bne, within]

theorem enters_identifier? {name : Text} (read : identifier? t = some (name, rest)) : Enters 0 t rest := by
  unfold identifier? at read
  split at read
  · cases read
    exact (enters_skip t).trans (enters_dropWhile (fun c => isPlain_of_isIdentifierPart) _)
  · cases read

theorem enters_callHead? {name : Text} (head : callHead? t = some (name, rest)) : Enters 1 t rest := by
  obtain ⟨after, read, opened⟩ := callHead?_eq_some.mp head
  have enters := (enters_identifier? read).trans (enters_skip after)
  rw [opened] at enters
  exact enters.opens

theorem enters_sign? {s : UnaryOperator} (signed : sign? t = some (s, rest)) : Enters 0 t rest := by
  have enters := enters_skip t
  unfold sign? at signed
  split at signed
  · next eq =>
    cases signed
    exact (eq ▸ enters).passes rfl
  · next eq =>
    cases signed
    exact (eq ▸ enters).passes rfl
  · next eq =>
    cases signed
    exact (eq ▸ enters).passes rfl
  · cases signed

theorem enters_captureArguments {arguments : List Text} (read : captureArguments 0 false [] [] t = some (arguments, rest)) :
    Enters 0 t (')' :: rest) := by
  obtain ⟨p, rfl, balanced⟩ := captureArguments_closes (n := ⟨0, false⟩) read
  exact ⟨p, rfl, Balanced.after balanced⟩

theorem enters_read? {op : BinaryOperator} (read : BinaryOperator.read? t = some (op, rest)) : Enters 0 t rest := by
  obtain ⟨⟨spelling, found⟩, member, eq⟩ := List.exists_of_findSome?_eq_some read
  obtain ⟨after, split, same⟩ := Option.map_eq_some_iff.mp eq
  cases same
  have plain : ∀ entry ∈ BinaryOperator.spellings, entry.1.all Nesting.isPlain = true := by decide
  rw [eq_append_of_afterOpening? split]
  exact enters_plain (List.all_eq_true.mp (plain _ member)) rest

end Enters

inductive Tree.Unreferring : Tree → Prop
  | literal (v : Float) : Unreferring (.literal v)
  | parameter (name : Text) : Unreferring (.parameter name)
  | capture (name : Text) (arguments : List Text) : Unreferring (.capture name arguments)
  | call {name : Text} {es : List Tree} (arguments : ∀ e ∈ es, Unreferring e) : Unreferring (.call name es)
  | sign {op : UnaryOperator} {e : Tree} (operand : Unreferring e) : Unreferring (.sign op e)
  | binary {op : Connective} {a b : Tree} (left : Unreferring a) (right : Unreferring b) : Unreferring (.binary op a b)
  | conditional {c a b : Tree} (condition : Unreferring c) (consequence : Unreferring a) (otherwise : Unreferring b) :
      Unreferring (.conditional c a b)

def Symbol.unclosed : Symbol → Nat
  | level _ => 0
  | call => 1

section Derivations
variable {w : Vocabulary} {inCall : Bool} {s : Symbol} {t rest : Text} {e : Tree}

theorem enters_connective? (balanced : ∀ f ∈ w.operators, Balanced f.name) {op : Connective}
    (read : w.connective? t = some (op, rest)) : Enters 0 t rest := by
  suffices enters : Enters 0 (skip t) rest from (enters_skip t).trans enters
  unfold Vocabulary.connective? at read
  split at read
  · next f more longest =>
    cases read
    obtain ⟨member, after, -⟩ := isLongest_of_longestOperator? longest
    obtain ⟨p, eq, lower⟩ := afterName?_eq_some.mp (Option.filter_eq_some_iff.mp after).1
    exact ⟨p, eq, ((balanced f member).of_asciiLower lower).after⟩
  · obtain ⟨⟨op, more⟩, builtin, same⟩ := Option.map_eq_some_iff.mp read
    cases same
    exact enters_read? builtin

theorem Vocabulary.Delimits.enters {c : Char} (delimits : w.Delimits c t rest) : Enters 0 t (c :: rest) :=
  delimits.2 ▸ enters_skip t

theorem Derives.enters (balanced : ∀ f ∈ w.operators, Balanced f.name) (derives : Derives w inCall s t e rest) (plain : e.Unreferring) :
    Enters s.unclosed t rest := by
  induction derives with
  | literal start read => exact (enters_skip _).trans (enters_literal read)
  | parameter read => exact enters_identifier? read
  | reference => cases plain
  | group opening _ closing body =>
    have opened := opening ▸ enters_skip _
    exact ((opened.opens.trans (body plain)).trans closing.enters).closes
  | capture head _ read => exact ((enters_callHead? head).trans (enters_captureArguments read)).closes
  | emptyCall head _ closing =>
    have closed := closing ▸ enters_skip _
    exact ((enters_callHead? head).trans closed).closes
  | firstArgument head _ _ argument =>
    cases plain with
    | call arguments => exact (enters_callHead? head).trans (argument (arguments _ (by simp)))
  | nextArgument _ comma _ before argument =>
    cases plain with
    | call arguments =>
      have earlier := before (.call fun e member => arguments e (List.mem_append_left _ member))
      exact ((earlier.trans comma.enters).passes rfl).trans (argument (arguments _ (by simp)))
  | closeCall _ closing before => exact ((before plain).trans closing.enters).closes
  | lift _ tighter => exact tighter plain
  | connective _ read _ left right =>
    cases plain with
    | binary first second => exact ((left first).trans (enters_connective? balanced read)).trans (right second)
  | signedOperand _ read _ signed _ left right =>
    cases plain with
    | binary first second =>
      cases second with
      | sign operand => exact (((left first).trans (enters_connective? balanced read)).trans (enters_sign? signed)).trans (right operand)
  | sign signed _ operand =>
    cases plain with
    | sign plain => exact (enters_sign? signed).trans (operand plain)
  | conditional _ question _ colon _ condition consequence otherwise =>
    cases plain with
    | conditional first second third =>
      have chosen := ((condition first).trans question.enters).passes rfl
      have other := ((chosen.trans (consequence second)).trans colon.enters).passes rfl
      exact other.trans (otherwise third)

end Derivations

end Netlist
