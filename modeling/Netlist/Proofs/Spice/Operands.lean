import Netlist.Proofs.Expression.Boundary
import Netlist.Proofs.Expression.Reference
import Netlist.Proofs.Real.Unit
import Netlist.Proofs.Spice.Values

/-!
Tokens of numbers as operands. The value of such a token is the value of its lexeme as an expression, on its
own and among the arguments of a call, although the one is found without its sign and without decimal commas
and the other by the grammar of expressions.
-/
namespace Netlist

/-! ### Literals without a rest -/

namespace Number
open Spice

theorem fraction_comma {t : Text} (apart : t.head? ≠ some ',') : fraction true t = fraction false t := by
  cases t with
  | nil => rfl
  | cons c t =>
    have other : c ≠ ',' := fun same => apart (congrArg some same)
    unfold fraction
    split
    · rfl
    · next same => exact absurd (List.cons.inj same).1 other
    · rfl

/-- A text that is a literal from end to end has no comma, so it does not matter what a comma would be. -/
theorem literal_comma {t : Text} {v : Float} (read : literal false t = .found v []) : literal true t = .found v [] := by
  have apart : (t.dropWhile Char.isDigit).head? ≠ some ',' := by
    intro mark
    obtain ⟨more, split⟩ := List.head?_eq_some_iff.mp mark
    have rest := (rest_of_literal read).2
    have stays : afterExponent false t = ',' :: more := by
      unfold afterExponent
      simp [split, fraction, exponent]
    rw [stays, List.dropWhile_cons_of_neg (by decide)] at rest
    cases rest
  unfold literal at read ⊢
  dsimp only at read ⊢
  rwa [fraction_comma apart]

theorem literal_of_false {t : Text} {v : Float} (read : literal false t = .found v []) (comma : Bool) :
    literal comma t = .found v [] := by
  cases comma with
  | false => exact read
  | true => exact literal_comma read

theorem starts_numeral {t : Text} (starts : startsMantissa t = true) : ∃ c more, t = c :: more ∧ isNumeralStart c = true := by
  cases t with
  | nil => cases starts
  | cons c more =>
    refine ⟨c, more, rfl, ?_⟩
    by_cases point : c = '.'
    · subst point
      rfl
    · rw [startsMantissa_cons point] at starts
      simp [isNumeralStart, starts]

theorem isNumeralStart_solid {c : Char} (start : isNumeralStart c = true) : isAsciiSpace c = false := by
  by_contra blank
  simp only [Bool.not_eq_false, isAsciiSpace, Bool.or_eq_true, beq_iff_eq] at blank
  rcases blank with (((rfl | rfl) | rfl) | rfl) | rfl <;> exact absurd start (by decide)

end Number

/-! ### The tree of a number -/

namespace Tree
open Decimal

def ofNumber (w : Text) (x : Float) : Tree :=
  match w with
  | '-' :: _ => .sign .negate (.literal x)
  | '+' :: _ => .sign .plus (.literal x)
  | _ => .literal x

theorem ofNumber_cases (w : Text) : (∃ u, w = '-' :: u) ∨ (∃ u, w = '+' :: u) ∨
    (splitSign w = (false, w) ∧ ∀ x, ofNumber w x = .literal x) := by
  unfold splitSign
  split
  · exact .inl ⟨_, rfl⟩
  · exact .inr (.inl ⟨_, rfl⟩)
  · next minus plus =>
    refine .inr (.inr ⟨rfl, fun x => ?_⟩)
    unfold ofNumber
    split
    · exact absurd rfl (minus _)
    · exact absurd rfl (plus _)
    · rfl

theorem eval_ofNumber {σ : Type} (r : Resolver σ) (text w : Text) (x : Float) :
    (ofNumber w x).eval r text = pure ((if (splitSign w).1 then -1 else 1) * x) := by
  have literal : (Tree.literal x).eval r text = pure x := by rw [eval]
  have signed (op : UnaryOperator) : (Tree.sign op (.literal x)).eval r text = pure (op.apply x) := by
    rw [eval, literal, pure_bind]
  rcases ofNumber_cases w with ⟨u, rfl⟩ | ⟨u, rfl⟩ | ⟨whole, tree⟩
  · rw [ofNumber, signed, splitSign, if_pos rfl, Double.neg_one_mul]
    rfl
  · rw [ofNumber, signed, splitSign, if_neg Bool.false_ne_true, Double.one_mul]
    rfl
  · rw [whole, tree, literal, if_neg Bool.false_ne_true, Double.one_mul]

end Tree

/-- Evaluation in a scope takes no notice of built-in functions. -/
theorem Scope.announce_eq (s : Scope) (simulation : Option Simulation) (t name : Text) :
    (s.meaning simulation t).announce name = pure () := by
  unfold Resolver.announce
  split <;> rfl

section Derivation
open Decimal Number Spice

variable {w : Vocabulary} {inCall : Bool}

private theorem derives_unsigned {t u tail : Text} {x : Float} (at_number : skip t = u ++ tail) (starts : startsMantissa u = true)
    (read : literal false u = .found x []) (stops : Stops (!inCall) tail) : Derives w inCall .primary t (.literal x) tail := by
  obtain ⟨c, more, rfl, start⟩ := starts_numeral starts
  apply Derives.literal
  · rw [at_number]
    exact start
  · rw [at_number, literal_append stops, literal_of_false read]
    rfl

theorem derives_ofNumber {t l tail : Text} {x : Float} (at_number : skip t = l ++ tail)
    (starts : startsMantissa (splitSign l).2 = true) (read : literal false (splitSign l).2 = .found x [])
    (stops : Stops (!inCall) tail) : Derives w inCall .expression t (Tree.ofNumber l x) tail := by
  have unsigned {t u : Text} (at_unsigned : skip t = u ++ tail) (starts : startsMantissa u = true)
      (read : literal false u = .found x []) : Derives w inCall .signed t (.literal x) tail :=
    (derives_unsigned at_unsigned starts read stops).lower (by decide)
  have skipped {u : Text} (starts : startsMantissa u = true) : skip (u ++ tail) = u ++ tail := by
    obtain ⟨c, more, rfl, start⟩ := starts_numeral starts
    exact List.dropWhile_cons_of_neg (by simp [isNumeralStart_solid start])
  refine Derives.lower (n := Precedence.sign) ?_ (by decide)
  rcases Tree.ofNumber_cases l with ⟨u, rfl⟩ | ⟨u, rfl⟩ | ⟨whole, tree⟩
  · exact .sign (by rw [sign?, at_number]; rfl) (unsigned (skipped starts) starts read)
  · exact .sign (by rw [sign?, at_number]; rfl) (unsigned (skipped starts) starts read)
  · rw [whole] at starts read
    rw [tree]
    exact unsigned at_number starts read

end Derivation

/-! ### Arguments -/

/-- A place for an argument in the call of a function over values: behind the opening parenthesis, or behind
a comma between its arguments. -/
inductive ArgumentPlace (w : Vocabulary) (inCall : Bool) (t name : Text) : List Tree → Text → Prop
  | first {rest : Text} (head : callHead? t = some (name, rest)) (values : w.takesTexts name = false) :
      ArgumentPlace w inCall t name [] rest
  | next {es : List Tree} {t₁ rest : Text} (before : Derives w inCall .call t (.call name es) t₁)
      (comma : w.Delimits ',' t₁ rest) : ArgumentPlace w inCall t name es rest

inductive MoreArguments (w : Vocabulary) : Text → List Tree → Text → Prop
  | none (t : Text) : MoreArguments w t [] t
  | more {t t₁ t₂ rest : Text} {e : Tree} {es : List Tree} (comma : w.Delimits ',' t t₁)
      (argument : Derives w true .expression t₁ e t₂) (behind : MoreArguments w t₂ es rest) : MoreArguments w t (e :: es) rest

section Arguments

variable {w : Vocabulary} {inCall : Bool} {t name rest tail : Text} {es fs : List Tree}

theorem ArgumentPlace.derives {e : Tree} (place : ArgumentPlace w inCall t name es rest)
    (argument : Derives w true .expression rest e tail) : Derives w inCall .call t (.call name (es ++ [e])) tail := by
  cases place with
  | first head values => exact .firstArgument head values argument
  | next before comma => exact .nextArgument before comma argument

theorem MoreArguments.derives (more : MoreArguments w tail fs rest) (before : Derives w inCall .call t (.call name es) tail) :
    Derives w inCall .call t (.call name (es ++ fs)) rest := by
  induction more generalizing es with
  | none tail => rwa [List.append_nil]
  | @more _ _ _ _ e fs comma argument _ ih =>
    have longer := ih (.nextArgument before comma argument)
    rwa [List.append_assoc] at longer

theorem Vocabulary.Delimits.stops {c : Char} (delimits : w.Delimits c tail rest) (ends : Number.endsLiteral false c = true) :
    Number.Stops false tail := by
  intro d first
  obtain ⟨more, rfl⟩ := List.head?_eq_some_iff.mp first
  cases blank : isAsciiSpace d with
  | true => simp [Number.endsLiteral, isWhiteSpace_of_isAsciiSpace blank]
  | false =>
    have here : skip (d :: more) = d :: more := List.dropWhile_cons_of_neg (by simp [blank])
    rw [← (List.cons.inj (here.symm.trans delimits.2)).1] at ends
    exact ends

theorem MoreArguments.stops {after : Text} (more : MoreArguments w tail fs after) (closing : w.Delimits ')' after rest) :
    Number.Stops false tail := by
  cases more with
  | none => exact closing.stops (by decide)
  | more comma => exact comma.stops (by decide)

end Arguments

namespace Spice
open Number Decimal Lexer

theorem Numeral.skip_eq {l : Text} (numeral : Numeral l) : skip l = l := by
  cases l with
  | nil => rfl
  | cons c l =>
    have solid := numeral.solid c List.mem_cons_self
    apply List.dropWhile_cons_of_neg
    intro blank
    rw [isWhiteSpace_of_isAsciiSpace blank] at solid
    cases solid

/-- The value of a token of a number is that of the literal behind the sign of its lexeme. -/
theorem literal_of_tokenValue {scope : Scope} {token : Token Kind} {world : World} {v : Float} (numeral : Numeral token.lexeme)
    (kind : token.kind = .value) (value : (tokenValue scope token world).1 = .ok (.ok v)) :
    ∃ x, literal false (splitSign token.lexeme).2 = .found x [] ∧ v = (if (splitSign token.lexeme).1 then -1 else 1) * x := by
  have own : tokenValue scope token = literalValue token token.lexeme := by rw [tokenValue, kind]
  rw [own, literalValue, Number.number] at value
  dsimp only at value
  rw [numeral.trim_eq] at value
  cases read : literal false (splitSign token.lexeme).2 with
  | absent =>
    rw [read] at value
    cases value
  | torn =>
    rw [read] at value
    cases value
  | found x rest =>
    rw [read] at value
    cases rest with
    | nil =>
      cases value
      exact ⟨x, rfl, rfl⟩
    | cons c rest => cases value

variable {o : Options} {file : Option Text} {keep : Bool} {t : Text} {token : Token Kind}

/-- Value tokens mean to the evaluator what they mean on their own. Where a token of a number has a value,
its lexeme reads as a tree with that value, whatever names mean. So the lexeme evaluates to the value in every
scope, and as an argument of any call that passes values, it passes that value. -/
theorem values_are_operands (member : .token token ∈ (lexer o file keep).items { rest := t }) (kind : token.kind = .value)
    {scope : Scope} {world : World} {v : Float} (value : (tokenValue scope token world).1 = .ok (.ok v)) :
    (∀ (s : Scope) (simulation : Option Simulation), s.evaluate simulation token.lexeme = pure v) ∧
    (∃ e : Tree, (∀ {σ : Type} (r : Resolver σ) (text : Text), e.eval r text = pure v) ∧
      ∀ (w : Vocabulary) (inCall : Bool) (text tail : Text), skip text = token.lexeme ++ tail → Stops (!inCall) tail →
        Derives w inCall .expression text e tail) ∧
    (∀ (s : Scope) (simulation : Option Simulation) (text name argument tail after rest : Text) (before behind : List Tree),
      ArgumentPlace s.vocabulary false text name before argument → skip argument = token.lexeme ++ tail →
      MoreArguments s.vocabulary tail behind after → s.vocabulary.Delimits ')' after rest → skip rest = [] →
      s.evaluate simulation text = do
        let vs ← Tree.evalAll (s.meaning simulation text) text before
        let ws ← Tree.evalAll (s.meaning simulation text) text behind
        (s.meaning simulation text).invoke text ((s.meaning simulation text).callee name) (vs ++ v :: ws)) := by
  have numeral := numeral_of_value member kind
  obtain ⟨x, read, rfl⟩ := literal_of_tokenValue numeral kind value
  have derives {w : Vocabulary} {inCall : Bool} {text tail : Text} (at_lexeme : skip text = token.lexeme ++ tail)
      (stops : Stops (!inCall) tail) : Derives w inCall .expression text (.ofNumber token.lexeme x) tail :=
    derives_ofNumber at_lexeme numeral.starts read stops
  have meaning {σ : Type} (r : Resolver σ) (text : Text) := Tree.eval_ofNumber r text token.lexeme x
  refine ⟨?_, ⟨_, meaning, fun w inCall text tail => derives⟩, ?_⟩
  · intro s simulation
    have alone : s.vocabulary.Reads token.lexeme (.ofNumber token.lexeme x) := by
      have text : skip token.lexeme = token.lexeme ++ [] := by rw [numeral.skip_eq, List.append_nil]
      exact ⟨[], derives text (fun c first => by cases first), rfl⟩
    rw [(s.evaluate_refines_grammar simulation token.lexeme).1 _ alone, meaning]
  · intro s simulation text name argument tail after rest before behind place at_lexeme more closing exhausted
    have here := place.derives (derives at_lexeme (more.stops closing))
    have call := Derives.closeCall (more.derives here) closing
    have whole : s.vocabulary.Reads text (.call name (before ++ [.ofNumber token.lexeme x] ++ behind)) :=
      ⟨rest, call.lower (by decide), exhausted⟩
    rw [(s.evaluate_refines_grammar simulation text).1 _ whole, Tree.eval, s.announce_eq, pure_bind, List.append_assoc,
      Tree.evalAll_append]
    simp only [List.cons_append, List.nil_append, Tree.evalAll, meaning, bind_assoc, pure_bind]

/-- A negative number with a suffix and a unit, by itself and behind another argument. -/
theorem values_are_operands_max :
    let scope := Scope.standard .spice3f5
    let text := chars "max(x, -2.5megV)"
    ∃ token v, .token token ∈ (lexer {} none false).items { rest := chars "-2.5megV" } ∧ token.kind = .value ∧
      token.lexeme = chars "-2.5megV" ∧ (tokenValue scope token {}).1 = .ok (.ok v) ∧
      scope.evaluate none token.lexeme = pure v ∧
      scope.evaluate none text = (do
        let vs ← Tree.evalAll (scope.meaning none text) text [.parameter ['x']]
        let ws ← Tree.evalAll (scope.meaning none text) text []
        (scope.meaning none text).invoke text ((scope.meaning none text).callee (chars "max")) (vs ++ v :: ws)) := by
  intro scope text
  obtain ⟨token, member, own⟩ := exists_token_of_any (lexer {} none false) { rest := chars "-2.5megV" }
    (fun token => token.kind == .value && token.lexeme == chars "-2.5megV") (by decide +kernel)
  simp only [Bool.and_eq_true, beq_iff_eq] at own
  obtain ⟨kind, lexeme⟩ := own
  obtain ⟨v, value⟩ := (tokenValue_of_number scope member (.inl kind)).1 (by rw [lexeme]; decide +kernel)
  have value : (tokenValue scope token {}).1 = .ok (.ok v) := by rw [value]; rfl
  obtain ⟨alone, -, argument⟩ := values_are_operands member kind value
  have delimits (c : Char) (rest : Text) (apart : (longestOperator? scope.operators (skip (c :: rest))).isNone = true)
      (solid : skip (c :: rest) = c :: rest) : scope.vocabulary.Delimits c (c :: rest) rest :=
    ⟨Option.isNone_iff_eq_none.mp apart, solid⟩
  have first : Derives scope.vocabulary false .call text (.call (chars "max") [.parameter ['x']]) (chars ", -2.5megV)") :=
    .firstArgument rfl rfl ((Derives.parameter rfl rfl).lower (by decide))
  refine ⟨token, v, member, kind, lexeme, value, alone scope none, ?_⟩
  refine argument scope none text (chars "max") (chars " -2.5megV)") [')'] [')'] [] [.parameter ['x']] [] ?_ ?_ (.none _) ?_ rfl
  · exact .next first (delimits ',' _ (by decide +kernel) rfl)
  · rw [lexeme]
    rfl
  · exact delimits ')' [] (by decide +kernel) rfl

end Spice

end Netlist
