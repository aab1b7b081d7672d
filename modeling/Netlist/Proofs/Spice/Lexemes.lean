import Netlist.Proofs.Lexer.Trace
import Netlist.Proofs.Spice.Rules

/-!
Lexemes of numbers and references. A token of one of these kinds has the text that the pattern of its kind
has matched.
-/
namespace Netlist.Spice

open Lexer Pattern

/-- The pattern of a kind that has one rule, which keeps the text that it matches. -/
def patternOf? : Kind → Option Pattern
  | .value => some number.ignoringCase
  | .percent => some (Pattern.seq number (literally "%")).ignoringCase
  | .reference => some reference.ignoringCase
  | _ => none

def fitsPattern (r : Rule Kind) : Bool :=
  match patternOf? r.kind, r.recognizer with
  | none, _ => true
  | some p, .pattern q => q == p.atStart
  | some _, .procedure .. => false

theorem rules_fitPattern (keep : Bool) : (grammar (fullOptions keep)).rules.all fitsPattern = true := by
  cases keep <;> rfl

variable {o : Options} {file : Option Text} {keep : Bool} {t : Text} {token : Token Kind} {s s' : Stream Kind}

theorem attempt_lexeme {r : Rule Kind} {p : Pattern} {window : Text} {state : State Kind} {c : Candidate Kind}
    (recognizer : r.recognizer = .pattern p) (found : r.attempt window state = .ok (some c)) : c.lexeme = none := by
  unfold Rule.attempt at found
  split at found
  · cases found
  · rw [recognizer] at found
    obtain ⟨length, _, rfl⟩ := Option.map_eq_some_iff.mp (Except.ok.inj found)
    rfl

theorem step_lexeme {c : Candidate Kind} (step : (lexer o file keep).step s = .ok (token, s')) (steps : Steps o s token s' c) :
    token.lexeme = c.lexeme.getD token.raw := by
  unfold Lexer.step at step
  split at step
  · next c' won =>
    obtain rfl := steps.wins.unique (select_wins won)
    obtain ⟨rfl, -⟩ := Prod.mk.inj (Except.ok.inj step)
    rfl
  · cases step

theorem step_reaches {p : Pattern} (step : (lexer o file keep).step s = .ok (token, s')) (own : patternOf? token.kind = some p) :
    ∃ c e, p.Reaches c e ∧ Cursor.Spans token.lexeme c e := by
  obtain ⟨c, steps⟩ := step_spec step
  have fits := all_rules rules_fitPattern steps.wins.mem
  obtain ⟨_, _, takes⟩ := attempt_takes steps.wins.mem steps.wins.found
  rw [steps.kind] at own
  unfold fitsPattern at fits
  rw [own] at fits
  cases takes with
  | group opening closing recognizer _ _ =>
    rw [recognizer] at fits
    cases fits
  | pattern q e recognizer head spans _ =>
    rw [recognizer] at fits
    obtain rfl : q = p := by simpa [atStart] using fits
    refine ⟨_, e, reaches_of_mem_ends (List.mem_of_mem_head? head), ?_⟩
    rw [step_lexeme step steps, attempt_lexeme recognizer steps.wins.found, Option.getD_none, steps.raw]
    exact spans

/-- The text of a token of such a kind is matched by the pattern of the kind. -/
theorem lexeme_reaches {p : Pattern} (member : .token token ∈ (lexer o file keep).items { rest := t })
    (own : patternOf? token.kind = some p) : ∃ c e, p.Reaches c e ∧ Cursor.Spans token.lexeme c e := by
  obtain ⟨tokens, s, item, run, ending⟩ := exists_matched (lexer o file keep) { rest := t }
  rw [run.items_eq rfl ending, List.mem_append, List.mem_singleton] at member
  rcases member with shown | last
  · obtain ⟨token', inside, same⟩ := List.mem_map.mp shown
    cases same
    obtain ⟨earlier, later, rfl⟩ := List.append_of_mem (List.mem_filter.mp inside).1
    obtain ⟨s', _, behind⟩ := run.split
    cases behind with
    | more _ step _ => exact step_reaches step own
  · cases ending with
    | text empty =>
      cases last
      cases own
    | failure nonempty step => cases last

end Netlist.Spice
