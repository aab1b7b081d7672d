import Netlist.Proofs.Lexer.Trace

/-!
Suppression. Whether silent tokens are shown has no part in what a step does, so with either choice a lexer
makes the same run, and comes to the same end; they differ in what they show of it alone.
-/
namespace Netlist.Lexer
variable {κ : Type} {lexer : Lexer κ} {s s' : Stream κ} {tokens : List (Token κ)} {item : Item κ}

def showing (lexer : Lexer κ) (keepSuppressed : Bool) : Lexer κ :=
  { lexer with options := { lexer.options with keepSuppressed } }

def Item.emitted : Item κ → Bool
  | .token t => !t.suppressed
  | .failure _ => true

theorem step_showing (lexer : Lexer κ) (keep : Bool) (s : Stream κ) : (lexer.showing keep).step s = lexer.step s := rfl

theorem Matched.showing (keep : Bool) (run : Matched lexer s tokens s') : Matched (lexer.showing keep) s tokens s' := by
  induction run with
  | none s => exact .none s
  | more nonempty step _ ih => exact .more nonempty ((step_showing lexer keep _).trans step) ih

theorem Ending.showing (keep : Bool) (ending : Ending lexer s item) : Ending (lexer.showing keep) s item := by
  cases ending with
  | text empty => exact .text empty
  | failure nonempty step => exact .failure nonempty ((step_showing lexer keep s).trans step)

theorem Ending.emitted (ending : Ending lexer s item) : item.emitted = true := by
  cases ending <;> rfl

theorem Matched.items_showing (running : s.finished = false) (run : Matched lexer s tokens s') (ending : Ending lexer s' item)
    (keep : Bool) : (lexer.showing keep).items s =
      (tokens.filter fun token => !token.suppressed || keep).map Item.token ++ [item] :=
  (run.showing keep).items_eq running (ending.showing keep)

theorem items_of_finished (finished : s.finished = true) : lexer.items s = [] := by
  refine itemsWithin_eq (fun n => ?_) (Nat.zero_le _)
  rw [after_finished finished]
  rfl

/-- The collected items are what `next` yields one by one, on every stream. -/
theorem next_after_eq (lexer : Lexer κ) (s : Stream κ) (n : Nat) : (lexer.next (lexer.after s n)).1 = (lexer.items s)[n]? := by
  cases running : s.finished with
  | true =>
    rw [items_of_finished running, after_finished running]
    rfl
  | false =>
    obtain ⟨tokens, s', item, run, ending⟩ := exists_matched lexer s
    rw [run.items_eq running ending, run.next_after running ending]

/-- Suppression only hides tokens. For every grammar, text, window and stream to start from, what is yielded
without suppressed tokens is what is yielded with them, less these, and both end with the same item. -/
theorem suppression_hides (lexer : Lexer κ) (s : Stream κ) :
    (lexer.showing false).items s = ((lexer.showing true).items s).filter Item.emitted ∧
      ((lexer.showing false).items s).getLast? = ((lexer.showing true).items s).getLast? ∧
      ∀ keep n, ((lexer.showing keep).next ((lexer.showing keep).after s n)).1 = ((lexer.showing keep).items s)[n]? := by
  cases running : s.finished with
  | true =>
    have ended (keep : Bool) : (lexer.showing keep).items s = [] := items_of_finished running
    exact ⟨by rw [ended, ended, List.filter_nil], by rw [ended, ended], fun keep => next_after_eq _ s⟩
  | false =>
    obtain ⟨tokens, s', item, run, ending⟩ := exists_matched lexer s
    have items := run.items_showing running ending
    have every : tokens.filter (fun token => !token.suppressed || true) = tokens :=
      List.filter_eq_self.mpr fun _ _ => Bool.or_true _
    have last : [item].filter Item.emitted = [item] := List.filter_eq_self.mpr (by simpa using ending.emitted)
    refine ⟨?_, ?_, fun keep => next_after_eq _ s⟩
    · rw [items false, items true, every, List.filter_append, last, List.filter_map]
      simp only [Bool.or_false]
      rfl
    · rw [items false, items true, List.getLast?_concat, List.getLast?_concat]

end Netlist.Lexer
