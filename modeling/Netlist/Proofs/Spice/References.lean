import Netlist.Expression.Host
import Netlist.Proofs.Expression.Reference
import Netlist.Proofs.Spice.Values

/-!
References. The lexer and the evaluator both know what the name of a reference is, from sets of their own. They
agree on all names but those with a colon, or with a character beyond ASCII that is a letter to the lexer alone:
there the evaluator stops, has what it read so far looked up, and goes on at the character.
-/
namespace Netlist

namespace Spice

open Pattern Cursor Lexer

/-! ### What the pattern matches -/

def isNamePart (x : Char) : Bool := isLetterForm x || x.isDigit || x == '_'

def isPathPart (x : Char) : Bool := isNamePart x || x == '.' || x == ':'

def namePartSet : CharSet := .ignoringCase (.ofRanges [('a', 'z'), ('0', '9'), ('_', '_')])

def nameStartSet : CharSet := .ignoringCase (.ofRanges [('a', 'z'), ('_', '_')])

theorem contains_underscore (x : Char) : (CharSet.ignoringCase (.ofRanges [('_', '_')])).contains x = (x == '_') :=
  (CharSet.contains_caseless_list (by decide : ['_'].all (decide <| Caseless ·) = true) x).trans (Bool.or_false _)

theorem contains_nameStartSet (x : Char) : nameStartSet.contains x = (isLetterForm x || x == '_') := by
  rw [← contains_letterSet, ← contains_underscore]
  exact CharSet.contains_ofRanges _ _ x

theorem contains_namePartSet (x : Char) : namePartSet.contains x = isNamePart x := by
  rw [isNamePart, Bool.or_assoc, ← contains_letterSet, ← contains_digitSet, ← contains_underscore]
  exact (CharSet.contains_ofRanges _ _ x).trans (congrArg _ (CharSet.contains_ofRanges _ _ x))

theorem contains_separators (x : Char) : (CharSet.ignoringCase (.ofList (chars ".:"))).contains x = [ '.', ':' ].contains x :=
  CharSet.contains_caseless_list (by decide) x

variable {x : Char} {c e : Cursor}

theorem isNamePart_of_uses (used : plainName.ignoringCase.uses x = true) : isNamePart x = true := by
  have sets : (nameStartSet.contains x || namePartSet.contains x) = true := used
  rw [contains_nameStartSet, contains_namePartSet] at sets
  unfold isNamePart at sets ⊢
  rcases Bool.or_eq_true_iff.mp sets with start | part
  · rcases Bool.or_eq_true_iff.mp start with letter | line
    · simp [letter]
    · simp [line]
  · exact part

theorem plainName_reaches (reached : plainName.ignoringCase.Reaches c e) :
    ∃ w, Spans w c e ∧ w ≠ [] ∧ ∀ x ∈ w, isNamePart x = true := by
  obtain ⟨w, spans, consumes⟩ := reached.consumes
  refine ⟨w, spans, fun empty => ?_, fun x member => isNamePart_of_uses (consumes.inside x member)⟩
  cases consumes.nullable empty

theorem path_reaches (reached : (many (.seq (anyOf ".:") plainName)).ignoringCase.Reaches c e) :
    ∃ w, Spans w c e ∧ ∀ x ∈ w, isPathPart x = true := by
  obtain ⟨w, spans, consumes⟩ := reached.consumes
  refine ⟨w, spans, fun x member => ?_⟩
  rcases Bool.or_eq_true_iff.mp (consumes.inside x member) with separator | part
  · rw [show (anyOf ".:").ignoringCase.uses x = _ from contains_separators x] at separator
    rcases List.mem_pair.mp (List.contains_iff_mem.mp separator) with rfl | rfl <;> decide
  · simp [isPathPart, isNamePart_of_uses part]

def bracketed (property? : Option Text) : Text := property?.elim [] fun property => '[' :: (property ++ [']'])

def referenceText (name : Text) (property? : Option Text) : Text := '@' :: (name ++ bracketed property?)

theorem bracketed_reaches (reached : (optional (inOrder [literally "[", plainName, literally "]"])).ignoringCase.Reaches c e) :
    ∃ property?, Spans (bracketed property?) c e ∧ ∀ property ∈ property?, ∀ x ∈ property, isNamePart x = true := by
  rcases optional_reaches reached with rfl | ⟨d, opening, d', inner, closing⟩
  · exact ⟨none, .here e, nofun⟩
  · obtain ⟨w, spans, _, parts⟩ := plainName_reaches inner
    have first := caseless_reaches (by decide) opening
    have last := caseless_reaches (by decide) closing
    refine ⟨some w, first.trans (spans.trans last), fun property same => ?_⟩
    obtain rfl := Option.some.inj same
    exact parts

theorem reference_reaches (reached : reference.ignoringCase.Reaches c e) :
    ∃ name property?, Spans (referenceText name property?) c e ∧ name ≠ [] ∧ (∀ x ∈ name, isPathPart x = true) ∧
      ∀ property ∈ property?, ∀ x ∈ property, isNamePart x = true := by
  obtain ⟨d₁, sign, d₂, first, d₃, path, brackets⟩ := reached
  have spans₁ := caseless_reaches (by decide) sign
  obtain ⟨v, spans₂, nonempty, parts⟩ := plainName_reaches first
  obtain ⟨w, spans₃, parts'⟩ := path_reaches path
  obtain ⟨property?, spans₄, inner⟩ := bracketed_reaches brackets
  refine ⟨v ++ w, property?, ?_, by simp [nonempty], fun x member => ?_, inner⟩
  · rw [referenceText, List.append_assoc]
    exact spans₁.trans (spans₂.trans (spans₃.trans spans₄))
  · rcases List.mem_append.mp member with here | there
    · simp [isPathPart, parts x here]
    · exact parts' x there

/-! ### What the evaluator reads -/

/-- A character of a name at which the evaluator stops. -/
def stopsName (x : Char) : Bool := x == ':' || isLookalike x

theorem isPathPart_solid (part : isPathPart x = true) :
    isWhiteSpace x = false ∧ x ≠ '[' ∧ x ≠ ']' ∧ isIdentifierPart x = !stopsName x := by
  rcases Nat.lt_or_ge x.toNat 128 with low | beyond
  · have all : ∀ c : Char, c.toNat < 128 → isPathPart c = true →
        isWhiteSpace c = false ∧ c ≠ '[' ∧ c ≠ ']' ∧ isIdentifierPart c = !stopsName c := forall_ascii (by decide +kernel)
    exact all x low part
  · have alone : x = '\u212a' ∨ x = '\u017f' := by
      simpa [isPathPart, isNamePart, isLetterForm, isLookalike, isAlpha_of_beyond beyond, isDigit_of_beyond beyond,
        ne_of_beyond beyond] using part
    rcases alone with rfl | rfl <;> decide

theorem isPathPart_of_isNamePart (part : isNamePart x = true) : isPathPart x = true := by simp [isPathPart, part]

variable {name : Text} {property? : Option Text}

/-- The evaluator stops in front of brackets, if it gets there. -/
theorem takeWhile_name (name : Text) (property? : Option Text) :
    (name ++ bracketed property?).takeWhile isIdentifierPart = name.takeWhile isIdentifierPart ∧
      (name ++ bracketed property?).dropWhile isIdentifierPart = name.dropWhile isIdentifierPart ++ bracketed property? := by
  induction name with
  | nil => cases property? <;> exact ⟨rfl, rfl⟩
  | cons x name ih =>
    cases part : isIdentifierPart x with
    | true => simp [part, ih.1, ih.2]
    | false => simp [part]

structure Path (name : Text) (property? : Option Text) : Prop where
  nonempty : name ≠ []
  parts : ∀ x ∈ name, isPathPart x = true
  inner : ∀ property ∈ property?, ∀ x ∈ property, isNamePart x = true

theorem Path.takeWhile_property (path : Path name property?) {property : Text} (has : property? = some property) :
    (property ++ [']']).takeWhile (· != ']') = property ∧ (property ++ [']']).dropWhile (· != ']') = [']'] ∧
      trim property = property := by
  have solid (x : Char) (member : x ∈ property) := isPathPart_solid (isPathPart_of_isNamePart (path.inner property has x member))
  have apart : ∀ x ∈ property, (x != ']') = true := fun x member => bne_iff_ne.mpr (solid x member).2.2.1
  refine ⟨?_, ?_, Number.trim_eq fun x member => (solid x member).1⟩
  · rw [List.takeWhile_append_of_pos apart]
    simp
  · rw [List.dropWhile_append_of_pos apart]
    rfl

theorem Path.solid (path : Path name property?) : ∀ x ∈ name ++ bracketed property?, isWhiteSpace x = false := by
  intro x member
  rcases List.mem_append.mp member with here | there
  · exact (isPathPart_solid (path.parts x here)).1
  · cases has : property? with
    | none =>
      rw [has] at there
      cases there
    | some property =>
      rw [has] at there
      rcases List.mem_cons.mp there with rfl | inside
      · decide
      · rcases List.mem_append.mp inside with inner | last
        · exact (isPathPart_solid (isPathPart_of_isNamePart (path.inner property has x inner))).1
        · rw [List.mem_singleton.mp last]
          decide

/-- A name without a character at which the evaluator stops is read as a whole, and so is the property. -/
theorem Path.reference?_whole (path : Path name property?) (whole : name.any stopsName = false) :
    reference? (referenceText name property?) = some (name :: property?.toList, []) := by
  have parts : ∀ x ∈ name, isIdentifierPart x = true := by
    intro x member
    rw [(isPathPart_solid (path.parts x member)).2.2.2, Bool.not_eq_true']
    exact Bool.eq_false_iff.mpr (List.any_eq_false.mp whole x member)
  have taken : (name ++ bracketed property?).takeWhile isIdentifierPart = name :=
    (takeWhile_name name property?).1.trans (List.takeWhile_eq_self_iff.mpr parts)
  have left : (name ++ bracketed property?).dropWhile isIdentifierPart = bracketed property? := by
    rw [(takeWhile_name name property?).2, List.dropWhile_eq_nil_iff.mpr parts, List.nil_append]
  have present : name.isEmpty = false := by simpa using path.nonempty
  change (if _ then _ else _) = _
  rw [taken, left, present, if_neg Bool.false_ne_true]
  cases has : property? with
  | none => rfl
  | some property =>
    obtain ⟨inner, closing, trimmed⟩ := path.takeWhile_property has
    simp only [bracketed, Option.elim_some, closing, inner, trimmed, Option.toList_some]

/-- Otherwise the name ends for the evaluator in front of the character. -/
theorem Path.exists_stop (path : Path name property?) (torn : name.any stopsName = true) :
    ∃ x more, name.dropWhile isIdentifierPart = x :: more ∧ stopsName x = true ∧ x ≠ '[' := by
  obtain ⟨y, member, stops⟩ := List.any_eq_true.mp torn
  have whole : name.dropWhile isIdentifierPart ≠ [] := by
    intro empty
    have part := List.dropWhile_eq_nil_iff.mp empty y member
    rw [(isPathPart_solid (path.parts y member)).2.2.2, stops] at part
    cases part
  obtain ⟨x, more, rest⟩ := List.exists_cons_of_ne_nil whole
  have inside : x ∈ name := (List.dropWhile_suffix isIdentifierPart).subset (rest ▸ List.mem_cons_self)
  obtain ⟨-, opening, -, same⟩ := isPathPart_solid (path.parts x inside)
  have other : isIdentifierPart x = false := by
    have head := List.head?_dropWhile_not isIdentifierPart name
    rw [rest] at head
    simpa using head
  rw [other, eq_comm, Bool.not_eq_false'] at same
  exact ⟨x, more, rest, same, opening⟩

theorem Path.reference?_part (path : Path name property?) (torn : name.any stopsName = true)
    (nonempty : name.takeWhile isIdentifierPart ≠ []) :
    reference? (referenceText name property?) =
      some ([name.takeWhile isIdentifierPart], name.dropWhile isIdentifierPart ++ bracketed property?) := by
  obtain ⟨x, more, rest, -, opening⟩ := path.exists_stop torn
  have present : (name.takeWhile isIdentifierPart).isEmpty = false := by simpa using nonempty
  change (if _ then _ else _) = _
  rw [(takeWhile_name name property?).1, (takeWhile_name name property?).2, rest, present, if_neg Bool.false_ne_true]
  dsimp only [List.cons_append]
  split
  · next eq => exact absurd (List.cons.inj eq).1 opening
  · rfl

end Spice

/-! ### What the machine does at a reference -/

namespace Machine
variable {σ : Type} {r : Resolver σ} {t rest : Text} {arguments : List Text}

theorem run_reference (read : reference? ('@' :: t) = some (arguments, rest)) :
    Machine.run r ('@' :: t) = r.refer ('@' :: t) arguments >>= fun v => Machine.proceed r ⟨'@' :: t, rest, [v], [], true⟩ := by
  have more : skip ('@' :: t) ≠ [] := List.cons_ne_nil '@' t
  rw [run_eq_proceed (c := '@') rfl (by decide), proceed_operand rfl more, operand_reference rfl read]
  simp [push, atToken]

theorem run_reference_whole (read : reference? ('@' :: t) = some (arguments, [])) :
    Machine.run r ('@' :: t) = r.refer ('@' :: t) arguments := by
  have reads : r.vocabulary.Reads ('@' :: t) (.reference arguments) := ⟨[], (Derives.reference read).lower (by decide), rfl⟩
  rw [reads.run_eq, Tree.eval]

theorem run_nameless (nameless : t.takeWhile isIdentifierPart = []) (solid : ∀ x ∈ t, isWhiteSpace x = false) :
    Machine.run r ('@' :: t) = Eval.raise (.unexpectedText t 1 ('@' :: t)) := by
  have word : t.takeWhile (!isWhiteSpace ·) = t := List.takeWhile_eq_self_iff.mpr fun x member => by simp [solid x member]
  have offset : byteSize ('@' :: t) - byteSize t = 1 := Nat.add_sub_cancel 1 (byteSize t)
  have operand : operand r ⟨'@' :: t, '@' :: t, [], [], false⟩ = Eval.raise (.unexpectedText t 1 ('@' :: t)) := by
    change Machine.reference r ⟨'@' :: t, t, [], [], false⟩ = _
    unfold Machine.reference
    rw [nameless]
    change Eval.raise (.unexpectedText (t.takeWhile (!isWhiteSpace ·)) (byteSize ('@' :: t) - byteSize t) ('@' :: t)) = _
    rw [word, offset]
  have more : skip ('@' :: t) ≠ [] := List.cons_ne_nil '@' t
  rw [run_eq_proceed (c := '@') rfl (by decide), proceed_operand rfl more]
  exact (congrArg (· >>= proceed r) operand).trans (Eval.raise_bind _ _)

def stopError (t rest : Text) : EvalError :=
  if rest.head? = some ':' then .unmatchedConditional t else .unexpectedText rest (byteSize t - byteSize rest) t

theorem proceed_stops {x : Char} (stops : Spice.stopsName x = true) (solid : ∀ y ∈ x :: rest, isWhiteSpace y = false)
    (unnamed : longestOperator? r.operators (x :: rest) = none) (v : Float) :
    Machine.proceed r ⟨t, x :: rest, [v], [], true⟩ = Eval.raise (stopError t (x :: rest)) := by
  have here : skip (x :: rest) = x :: rest := by
    refine List.dropWhile_cons_of_neg fun blank => ?_
    have white := isWhiteSpace_of_isAsciiSpace blank
    rw [solid x List.mem_cons_self] at white
    cases white
  have longest : longestOperator? r.vocabulary.operators (skip (x :: rest)) = none := by rw [here]; exact unnamed
  have word : (x :: rest).takeWhile (!isWhiteSpace ·) = x :: rest :=
    List.takeWhile_eq_self_iff.mpr fun y member => by simp [solid y member]
  have operator : operator r ⟨t, skip (x :: rest), [v], [], true⟩ = Eval.raise (stopError t (x :: rest)) := by
    rcases Bool.or_eq_true_iff.mp stops with colon | lookalike
    · obtain rfl : x = ':' := by simpa using colon
      exact operator_colon (t := ':' :: rest) rfl ⟨longest, here⟩
    · rw [here]
      unfold Machine.operator
      rw [show longestOperator? r.operators (x :: rest) = none from unnamed]
      have error : Machine.unexpected ⟨t, x :: rest, [v], [], true⟩ =
          .unexpectedText (x :: rest) (byteSize t - byteSize (x :: rest)) t := by rw [unexpected, Machine.offset, word]
      have alone : x = '\u212a' ∨ x = '\u017f' := by simpa [Spice.isLookalike] using lookalike
      rcases alone with rfl | rfl <;> exact congrArg Eval.raise error
  have more : skip (x :: rest) ≠ [] := ne_of_eq_of_ne here (List.cons_ne_nil x rest)
  rw [proceed_operator rfl more]
  exact (congrArg (· >>= proceed r) operator).trans (Eval.raise_bind _ _)

end Machine

/-! ### The values of references -/

namespace Spice
open Lexer

/-- The lookup of a reference: the function `@` over texts, called while the text of a token is evaluated. -/
def lookup (scope : Scope) (token : Token Kind) (f : Function) (arguments : List Text) : Eval World Float :=
  (scope.meaning none token.lexeme).call f (.raw arguments)

def reported (token : Token Kind) (value : Eval World Float) : Eval World (Except ValueError Float) := do
  return (← value.attempt).mapError (.evaluation token.line)

variable {scope : Scope} {f : Function} {token : Token Kind} {name : Text} {property? : Option Text}

theorem tokenValue_of_reference (kind : token.kind = .reference) :
    tokenValue scope token = reported token (Machine.run (scope.meaning none token.lexeme) token.lexeme) := by
  rw [← Scope.evaluate_eq_run, tokenValue, kind]
  rfl

theorem refer_eq_lookup (defined : scope.function? ['@'] = some f) (raw : f.isRaw = true) (arguments : List Text) :
    (scope.meaning none token.lexeme).refer token.lexeme arguments = lookup scope token f arguments := by
  have own : (scope.meaning none token.lexeme).function? ['@'] = some f := defined
  rw [Resolver.refer, own]
  exact if_pos raw

/-- Where the evaluator goes on behind the part of a name that it has looked up. -/
def goOn (scope : Scope) (token : Token Kind) (behind : Text) (v : Float) : Eval World Float :=
  Machine.proceed (scope.meaning none token.lexeme) ⟨token.lexeme, behind, [v], [], true⟩

/-- Tokens of references, for all options and texts. In a scope where `@` takes texts, a reference has as value
what one call of `@` gives for the whole name and the property, if there is no colon in the name and no character
that is a letter to the lexer alone. Otherwise `@` is called without what follows such a character, or not at all,
and there is an error, unless an operator is named by that character. -/
theorem references_are_looked_up (o : Options) (file : Option Text) (keep : Bool) (t : Text) (token : Token Kind)
    (member : .token token ∈ (lexer o file keep).items { rest := t }) (kind : token.kind = .reference) :
    ∃ name property?, token.lexeme = referenceText name property? ∧ name ≠ [] ∧ '[' ∉ name ∧
      (∀ property ∈ property?, ']' ∉ property) ∧ (∀ x ∈ name, isIdentifierPart x = !stopsName x) ∧
      ∀ (scope : Scope) (f : Function), scope.function? ['@'] = some f → f.isRaw = true →
        let part := name.takeWhile isIdentifierPart
        let behind := name.dropWhile isIdentifierPart ++ bracketed property?
        (name.any stopsName = false →
          tokenValue scope token = reported token (lookup scope token f (name :: property?.toList))) ∧
        (name.any stopsName = true → part = [] →
          tokenValue scope token = reported token (Eval.raise (.unexpectedText behind 1 token.lexeme))) ∧
        (name.any stopsName = true → part ≠ [] →
          tokenValue scope token = reported token (lookup scope token f [part] >>= goOn scope token behind) ∧
          (longestOperator? scope.operators behind = none →
            ∀ v, goOn scope token behind v = Eval.raise (Machine.stopError token.lexeme behind))) := by
  obtain ⟨c, e, reached, spans⟩ := lexeme_reaches member (by rw [kind]; rfl)
  obtain ⟨name, property?, spans', nonempty, parts, inner⟩ := reference_reaches reached
  have lexeme : token.lexeme = referenceText name property? := spans.unique spans'
  have path : Path name property? := ⟨nonempty, parts, inner⟩
  refine ⟨name, property?, lexeme, nonempty, ?_, ?_, ?_, ?_⟩
  · intro opening
    exact (isPathPart_solid (parts _ opening)).2.1 rfl
  · intro property has closing
    exact (isPathPart_solid (isPathPart_of_isNamePart (inner property has _ closing))).2.2.1 rfl
  · intro x inside
    exact (isPathPart_solid (parts x inside)).2.2.2
  intro scope f defined raw
  refine ⟨fun whole => ?_, fun torn empty => ?_, fun torn named => ⟨?_, ?_⟩⟩
  · rw [tokenValue_of_reference kind, ← refer_eq_lookup defined raw, lexeme]
    exact congrArg (reported token) (Machine.run_reference_whole (path.reference?_whole whole))
  · have nameless := (takeWhile_name name property?).1.trans empty
    have split := List.takeWhile_append_dropWhile (p := isIdentifierPart) (l := name)
    rw [empty, List.nil_append] at split
    rw [tokenValue_of_reference kind, lexeme, split]
    exact congrArg (reported token) (Machine.run_nameless nameless path.solid)
  · rw [tokenValue_of_reference kind, ← refer_eq_lookup defined raw]
    unfold goOn
    rw [lexeme]
    exact congrArg (reported token) (Machine.run_reference (path.reference?_part torn named))
  · intro unnamed v
    obtain ⟨x, more, rest, stops, -⟩ := path.exists_stop torn
    have solid : ∀ y ∈ name.dropWhile isIdentifierPart ++ bracketed property?, isWhiteSpace y = false := by
      intro y inside
      refine path.solid y ?_
      rw [← List.takeWhile_append_dropWhile (p := isIdentifierPart) (l := name), List.append_assoc]
      exact List.mem_append_right _ inside
    rw [rest] at unnamed solid ⊢
    exact Machine.proceed_stops stops solid unnamed v

/-- A text is a reference in one way. -/
theorem referenceText_inj {name' : Text} {property?' : Option Text} (apart : '[' ∉ name) (apart' : '[' ∉ name')
    (same : referenceText name property? = referenceText name' property?') : name = name' ∧ property? = property?' := by
  have taken {name : Text} (property? : Option Text) (apart : '[' ∉ name) :
      (name ++ bracketed property?).takeWhile (· != '[') = name := by
    have front : ∀ x ∈ name, (x != '[') = true := fun x member => bne_iff_ne.mpr fun opening => apart (opening ▸ member)
    rw [List.takeWhile_append_of_pos front]
    cases property? <;> simp [bracketed]
  have rest : name ++ bracketed property? = name' ++ bracketed property?' := (List.cons.inj same).2
  obtain rfl : name = name' := by rw [← taken property? apart, rest, taken property?' apart']
  refine ⟨rfl, ?_⟩
  have brackets := List.append_cancel_left rest
  cases property? <;> cases property?' <;> simp [bracketed] at brackets ⊢
  exact brackets

/-- A property of a part of a part. -/
theorem references_are_looked_up_part :
    let text := chars "@m1.q[id]"
    let f := Host.function ['@'] .variadic false .rawCount none
    let scope := (Scope.empty .spice3f5).define f
    scope.function? ['@'] = some f ∧ f.isRaw = true ∧
      ∃ token, .token token ∈ (lexer {} none false).items { rest := text } ∧ token.kind = .reference ∧
        tokenValue scope token = reported token (lookup scope token f [chars "m1.q", chars "id"]) := by
  intro text f scope
  obtain ⟨token, member, own⟩ := exists_token_of_any (lexer {} none false) { rest := text }
    (fun token => token.kind == .reference && token.lexeme == text) (by decide +kernel)
  simp only [Bool.and_eq_true, beq_iff_eq] at own
  obtain ⟨name, property?, lexeme, -, apart, -, -, looked⟩ :=
    references_are_looked_up {} none false text token member own.1
  have same : referenceText name property? = referenceText (chars "m1.q") (some (chars "id")) := lexeme.symm.trans own.2
  obtain ⟨rfl, rfl⟩ := referenceText_inj apart (by decide) same
  have defined : scope.function? ['@'] = some f := rfl
  have raw : f.isRaw = true := rfl
  exact ⟨defined, raw, token, member, own.1, (looked scope f defined raw).1 (by decide)⟩

theorem isOk_reported (token : Token Kind) (m : Eval World Float) (world : World) :
    (reported token m world).1.toOption.any (·.isOk) = (m world).1.isOk := by
  simp only [reported, Eval.bind_apply, Eval.attempt_apply]
  generalize m world = ended
  rcases ended with ⟨(_ | _ | _) | v, _⟩ <;> rfl

/-- The name of a reference with a colon is no single argument. -/
theorem colon_ends_name :
    let f := Host.function ['@'] .variadic false .rawCount none
    let scope := (Scope.empty .spice3f5).define f
    scope.function? ['@'] = some f ∧ f.isRaw = true ∧
      ∃ token, .token token ∈ (lexer {} none false).items { rest := chars "@a:b" } ∧ token.kind = .reference ∧
        token.lexeme = chars "@a:b" ∧ tokenValue scope token ≠ reported token (lookup scope token f [chars "a:b"]) := by
  intro f scope
  obtain ⟨token, member, own⟩ := exists_token_of_any (lexer {} none false) { rest := chars "@a:b" }
    (fun token => token.kind == .reference && token.lexeme == chars "@a:b") (by decide +kernel)
  simp only [Bool.and_eq_true, beq_iff_eq] at own
  refine ⟨rfl, rfl, token, member, own.1, own.2, fun same => ?_⟩
  rw [tokenValue_of_reference own.1] at same
  have outcomes := isOk_reported token (Machine.run (scope.meaning none token.lexeme) token.lexeme) {}
  rw [same, isOk_reported, lookup, own.2] at outcomes
  exact absurd outcomes (by decide +kernel)

end Spice

end Netlist
