import Netlist.Expression.FreeNames
import Netlist.Proofs.Expression.Failures
import Netlist.Proofs.Expression.Nesting
import Netlist.Proofs.Library.Telling

/-!
Where errors point. The scan is at the start of the rest of its text at every moment, and moves on with every token; so
an error that names an unexpected text gives the place at which it stands, wherever it comes from: from the text
itself, from the text of an argument, or from a text that a function keeps.
-/
namespace Netlist

theorem Complains.inPlace {t : Text} {e : EvalError} (complains : Complains t e) : e.InPlace := by
  cases complains with
  | unexpected whole => exact ⟨_, _, whole, rfl⟩
  | _ => trivial

/-- A connective takes at least a character, unless it is one without a name. -/
theorem connective?_follows {w : Vocabulary} (named : ∀ f ∈ w.operators, f.name ≠ []) {t rest : Text} {op : Connective}
    (read : w.connective? t = some (op, rest)) : Follows rest (skip t) := by
  unfold Vocabulary.connective? at read
  split at read
  · next f more longest =>
    cases read
    obtain ⟨member, after, -⟩ := isLongest_of_longestOperator? longest
    obtain ⟨p, split, lower⟩ := afterName?_eq_some.mp (Option.filter_eq_some_iff.mp after).1
    have nonempty : p ≠ [] := by
      rintro rfl
      exact named f member (List.map_eq_nil_iff.mp lower.symm)
    rw [split]
    exact ⟨List.suffix_append p rest, by simpa using List.length_pos_of_ne_nil nonempty⟩
  · obtain ⟨⟨op', more⟩, builtin, same⟩ := Option.map_eq_some_iff.mp read
    cases same
    exact BinaryOperator.read?_follows builtin

namespace Machine

open Relation

variable {σ : Type} {r : Resolver σ} {t : Text} {m m' : Machine} {s s' : σ} {b : Moment σ} {e : EvalError}

theorem offset_lt (same : m'.expression = m.expression) (within : m.rest <:+ m.expression) (follows : Follows m'.rest m.rest) :
    m.offset < m'.offset := by
  obtain ⟨before, whole⟩ := within
  obtain ⟨⟨token, split⟩, less⟩ := follows
  have nonempty : token ≠ [] := by
    rintro rfl
    rw [← split] at less
    exact Nat.lt_irrefl _ less
  have taken := byteSize_pos nonempty
  unfold offset
  rw [same, ← whole, ← split, byteSize_append, byteSize_append]
  omega

theorem offset_le {rest : Text} (suffix : rest <:+ m.rest) : m.offset ≤ offset { m with rest } := by
  obtain ⟨token, split⟩ := suffix
  refine Nat.sub_le_sub_left ?_ _
  rw [← split, byteSize_append]
  exact Nat.le_add_left _ _

/-- In front of a token the scan moves on by at least a character. -/
theorem follows_of_scanning (named : ∀ f ∈ r.operators, f.name ≠ []) (more : skip m.rest ≠ [])
    (moves : Moves r (.scanning m s) b) (at_moment : b.machine? = some m') :
    m'.expression = m.expression ∧ Follows m'.rest m.atToken.rest := by
  have cons {c : Char} {rest : Text} (eq : skip m.rest = c :: rest) : Follows rest m.atToken.rest := by
    rw [atToken, eq]
    exact follows_cons List.suffix_rfl
  obtain rfl := Option.some.inj moves
  unfold read at at_moment
  rw [if_neg (by simpa using more)] at at_moment
  split at at_moment
  · split at at_moment
    · next p rest found =>
      cases at_moment
      refine ⟨rfl, ?_⟩
      cases purpose?_reads found with
      | connective read => exact connective?_follows named read
      | question mark | colon mark | close mark => exact cons mark.2
      | comma mark => exact cons mark.2
    · cases at_moment
  · next waiting =>
    split at at_moment
    · next found =>
      obtain ⟨rest, stack, closing, -, rfl⟩ := emptyCall?_eq_some found
      cases at_moment
      exact ⟨rfl, cons closing⟩
    · rcases operand : m.atToken.operand r s with ⟨f | m₁, s₁⟩
      · rw [operand] at at_moment
        cases at_moment
      · rw [operand] at at_moment
        cases at_moment
        have again : m.atToken.atToken = m.atToken := by simp only [atToken, skip_skip]
        have advanced : m.atToken.atToken.advance r s = (.ok m', s₁) := by
          rw [again, advance, if_neg (show ¬ m.atToken.expectOperator = true from waiting), operand]
        obtain ⟨same, suffix, less⟩ := (advance_progress r m.atToken).of_ok advanced
        refine ⟨same, suffix, ?_⟩
        unfold remaining at less
        rw [if_neg (show ¬ m.atToken.expectOperator = true from waiting)] at less
        omega

/-- An error of a run is in place if the meaning of names does not make it up. -/
theorem run_inPlace (names : r.FailsOnly t fun f _ => f = .error e → e.InPlace) (failed : run r t s = (.error (.error e), s')) :
    e.InPlace := by
  have own (e' : EvalError) (s : σ) (complains : Complains t e') : Fault.error e' = .error e → e.InPlace := by
    intro same
    cases same
    exact complains.inPlace
  rcases run_fails names own (fun _ same => nomatch same) failed with inPlace | same | same | ⟨_, _, _, same⟩
  · exact inPlace rfl
  all_goals
    cases same
    trivial

end Machine

/-! ### Free names -/

/-- The scan for names has no errors of its own, and none of the texts of arguments. -/
theorem recorder_fails (scope : Scope) (scan : Text → Eval FreeNames Float) (t : Text) (e : EvalError) :
    (FreeNames.recorder scope scan).FailsOnly t fun f _ => f = .error e → e.InPlace := by
  have scanned (ts : List Text) : (FreeNames.scanAll scan ts).FailsOnly fun f _ => f = .error e → e.InPlace := by
    induction ts with
    | nil => exact .pure _
    | cons t ts ih => exact (Eval.FailsOnly.attempt (fun _ _ other same => absurd same (other e)) _).bind fun _ => ih
  exact {
    parameter name := (Eval.FailsOnly.modify _).bind fun _ => .pure _
    unknown name := (Eval.FailsOnly.modify _).bind fun _ => .pure _
    note name := .modify _
    call f arguments offered := by
      refine (Eval.FailsOnly.modify _).bind fun _ => ?_
      cases arguments with
      | values vs => exact .pure _
      | raw ts => exact (scanned ts).bind fun _ => .pure _ }

theorem freeNames_inPlace {scope : Scope} {t : Text} {e : EvalError} (failed : scope.freeNames t = .error (.error e)) :
    e.InPlace := by
  unfold Scope.freeNames at failed
  split at failed
  · cases failed
  · next names scanned =>
    cases failed
    exact Machine.run_inPlace (recorder_fails scope _ t e) scanned

namespace Scope

def Calls (s : Scope) (f : Function) : Prop := (∃ name, s.function? name = some f) ∨ f ∈ s.operators

theorem calls_child (s : Scope) (bindings : List (Text × Float)) (f : Function) : (s.child bindings).Calls f ↔ s.Calls f := by
  change _ ↔ ({ dialect := s.dialect, ancestors := s.frames } : Scope).Calls f
  unfold child
  dsimp only
  generalize ({ dialect := s.dialect, ancestors := s.frames } : Scope) = inner
  induction bindings generalizing inner with
  | nil => exact Iff.rfl
  | cons binding bindings ih => exact ih (inner.store binding.1 binding.2)

end Scope

/-- An error of an evaluation is in place, if no function that can be called makes it up. -/
theorem evaluateWithin_inPlace {e : EvalError} (depth : Nat) {scope : Scope} (honest : ∀ f, scope.Calls f → f.Tells (· ≠ e))
    {simulation : Option Simulation} {t : Text} {w w' : World}
    (failed : evaluateWithin depth scope simulation t w = (.error (.error e), w')) : e.InPlace := by
  induction depth generalizing scope simulation t w w' with
  | zero => cases failed
  | succ depth outer =>
    induction size : t.length using Nat.strongRecOn generalizing scope simulation t w w' with
    | ind n shorter =>
      rw [evaluateWithin_succ] at failed
      refine Machine.run_inPlace ?_ failed
      exact {
        parameter name := by
          dsimp only [Scope.resolver]
          split
          · exact .pure _
          · refine .raise fun _ same => ?_
            cases same
            trivial
        unknown name := .raise fun _ same => by
          cases same
          trivial
        note name := .pure _
        call f arguments offered := by
          rintro w f' w' failed rfl
          rcases (honest f offered arguments).run_fails failed with ours | ⟨bindings, inner, v, v', nested⟩
          · exact absurd rfl ours
          · have honest' (g : Function) (calls : (scope.child bindings).Calls g) : g.Tells (· ≠ e) :=
              honest g ((scope.calls_child bindings g).mp calls)
            unfold nestedIn at nested
            split at nested
            · next less => exact shorter inner.length (size ▸ less) honest' nested rfl
            · exact outer honest' nested }

namespace Scope

open Machine

/-- Between the moments that lead to the end of a run, the scan is always at the start of what is left of its text, so
never inside of a character or behind the end, and every token takes it further, unless an operator has no name. An error of an evaluation or of a scan for names that
tells of an unexpected text gives the place at which that text stands, however deep the text that it comes from is
nested, unless a function makes the error up. Neither the functions of the library nor those that a host describes by
data do. -/
theorem errors_in_place :
    (∀ {σ : Type} (r : Resolver σ) (t : Text) (s : σ),
      (∀ outcome s', run r t s = (outcome, s') ↔ Reaches r (.start t s) (.ended outcome s')) ∧
      (∀ a m, Reaches r (.start t s) a → a.machine? = some m →
        m.expression = t ∧ m.offset ≤ byteSize t ∧ ∃ before, t = before ++ m.rest ∧ m.offset = byteSize before) ∧
      ((∀ f ∈ r.operators, f.name ≠ []) → ∀ m s' b m', Reaches r (.start t s) (.scanning m s') → skip m.rest ≠ [] →
        Moves r (.scanning m s') b → b.machine? = some m' → m.offset ≤ m.atToken.offset ∧ m.atToken.offset < m'.offset)) ∧
      (∀ (scope : Scope) simulation t w e w', scope.evaluate simulation t w = (.error (.error e), w') →
        e.InPlace ∨ ∃ f, scope.Calls f ∧ ¬ f.Tells (· ≠ e)) ∧
      (∀ (scope : Scope) t e, scope.freeNames t = .error (.error e) → e.InPlace) ∧
      (∀ d, ∀ f ∈ Library.functions d, f.Tells EvalError.InPlace) ∧
      ∀ name arity isOperator body slope, (Host.function name arity isOperator body slope).Tells EvalError.InPlace := by
  refine ⟨fun r t s => ⟨fun _ _ => run_eq_iff_reaches, fun a m reached at_moment => ?_,
      fun named m s' b m' reached more moves at_moment => ?_⟩,
    fun scope simulation t w e w' failed => ?_, fun scope t e failed => freeNames_inPlace failed,
    fun d f member => Library.tells member, Host.tells⟩
  · obtain ⟨whole, ⟨before, split⟩, -⟩ := (inStep_of_reaches reached).machine at_moment
    have place : m.offset = byteSize before := by
      rw [offset, whole, ← split, byteSize_append, Nat.add_sub_cancel]
    refine ⟨whole, ?_, before, split.symm, place⟩
    rw [place, ← split, byteSize_append]
    exact Nat.le_add_right _ _
  · obtain ⟨whole, within, -⟩ := (inStep_of_reaches reached).machine rfl
    obtain ⟨same, follows⟩ := follows_of_scanning named more moves at_moment
    have at_token : m.atToken.rest <:+ m.atToken.expression := (skip_suffix m.rest).trans (whole ▸ within)
    exact ⟨offset_le (skip_suffix m.rest), offset_lt same at_token follows⟩
  · by_cases honest : ∀ f, scope.Calls f → f.Tells (· ≠ e)
    · exact .inl (evaluateWithin_inPlace _ honest failed)
    · push Not at honest
      exact .inr honest

-- The character in the brackets has two bytes.
example : (empty .spice3f5).freeNames (chars "@a[\u00e9]\u00e9") =
    .error (.error (.unexpectedText (chars "\u00e9") 6 (chars "@a[\u00e9]\u00e9"))) := by decide

end Scope

end Netlist
