import Netlist.Lexer.Recipe
import Netlist.Lexer.Run
import Netlist.Proofs.Pattern.Reach

/-!
How far rules reach. A match of a pattern ends inside the text, so that of a rule ends inside the
window; a window is a beginning of the remaining text.
-/
namespace Netlist

namespace Pattern

/-- A pattern does not leave the text. -/
theorem ends_extent {p : Pattern} {c e : Cursor} (member : e ∈ p.ends c) :
    e.offset + e.rest.length = c.offset + c.rest.length := by
  obtain ⟨w, spans, _⟩ := (reaches_of_mem_ends member).consumes
  rw [spans.offset, spans.rest, List.length_append, Nat.add_assoc]

theorem findFrom_extent {p : Pattern} {b : Option Char} {offset : Nat} {skipped t : Text} {found : Found}
    (matched : p.findFrom b offset skipped t = some found) :
    found.after.offset + found.after.rest.length = offset + t.length := by
  induction t generalizing b offset skipped with
  | nil =>
    obtain ⟨e, reached, rfl⟩ := Option.map_eq_some_iff.mp matched
    exact ends_extent (List.mem_of_mem_head? reached)
  | cons c rest ih =>
    unfold findFrom at matched
    split at matched
    · next e reached =>
      obtain rfl := Option.some.inj matched
      exact ends_extent (List.mem_of_mem_head? reached)
    · rw [ih matched, List.length_cons]
      omega

/-- A match ends inside the text. -/
theorem findEnd?_le {p : Pattern} {t : Text} {length : Nat} (found : p.findEnd? t = some length) : length ≤ t.length := by
  unfold findEnd? at found
  split at found
  · obtain ⟨e, reached, rfl⟩ := Option.map_eq_some_iff.mp found
    have inside : e.offset + e.rest.length = 0 + t.length := ends_extent (List.mem_of_mem_head? reached)
    omega
  · obtain ⟨m, matched, rfl⟩ := Option.map_eq_some_iff.mp found
    have inside := findFrom_extent matched
    omega

end Pattern

theorem firstTerminator_prefix (t : Text) : firstTerminator t <+: t := by
  unfold firstTerminator
  split
  · next rest => exact ⟨rest, rfl⟩
  · next c rest _ =>
    split
    · exact ⟨rest, rfl⟩
    · exact List.nil_prefix
  · exact List.nil_prefix

theorem firstLine_prefix (t : Text) : (firstLine t).whole <+: t := by
  obtain ⟨rest, eq⟩ := firstTerminator_prefix (t.dropWhile (!isLineBreak ·))
  refine ⟨rest, ?_⟩
  change t.takeWhile (!isLineBreak ·) ++ firstTerminator _ ++ rest = t
  rw [List.append_assoc, eq, List.takeWhile_append_dropWhile]

theorem firstRunWithin_prefix (k : Continuation) (bound : Nat) (t : Text) :
    Continuation.source (k.firstRunWithin bound t) <+: t := by
  induction bound generalizing t with
  | zero => exact List.nil_prefix
  | succ bound ih =>
    obtain ⟨rest, eq⟩ := firstLine_prefix t
    have dropped : t.drop (firstLine t).whole.length = rest :=
      (congrArg (List.drop (firstLine t).whole.length) eq.symm).trans List.drop_left
    unfold Continuation.firstRunWithin
    dsimp only
    rw [dropped]
    split
    · obtain ⟨more, joined⟩ := ih rest
      refine ⟨more, ?_⟩
      change (firstLine t).whole ++ Continuation.source _ ++ more = t
      rw [List.append_assoc, joined, eq]
    · refine ⟨rest, ?_⟩
      change (firstLine t).whole ++ [] ++ rest = t
      rw [List.append_nil, eq]

/-- What rules see is a beginning of the remaining text. -/
theorem Window.view_prefix (w : Window) (k : Continuation) (rest : Text) : w.view k rest <+: rest := by
  cases w with
  | line => exact firstLine_prefix rest
  | logical =>
    change Continuation.source (k.firstRun rest) <+: rest
    unfold Continuation.firstRun
    split
    · exact List.nil_prefix
    · exact firstRunWithin_prefix k rest.length rest
  | full => exact List.prefix_rfl

namespace Lexer
variable {κ : Type}

def Grammar.Bounded (g : Grammar κ) : Prop :=
  ∀ rule ∈ g.rules, ∀ trigger matcher, rule.recognizer = .procedure trigger matcher →
    ∀ window s capture, matcher window s = .ok (some capture) → capture.length ≤ window.length

def Candidate.Fits (window : Text) (c : Candidate κ) : Prop := 0 < c.length ∧ c.length ≤ window.length

variable {window : Text} {s : State κ} {c : Candidate κ}

theorem attempt_positive {rule : Rule κ} (found : rule.attempt window s = .ok (some c)) : 0 < c.length := by
  unfold Rule.attempt at found
  split at found
  · cases found
  · split at found
    · next p recognizer =>
      obtain ⟨length, matched, rfl⟩ := Option.map_eq_some_iff.mp (Except.ok.inj found)
      exact of_decide_eq_true (Option.filter_eq_some_iff.mp matched).2
    · next trigger matcher recognizer =>
      split at found
      · cases found
      · split at found
        · cases found
        · next capture? captured =>
          obtain ⟨capture, matched, rfl⟩ := Option.map_eq_some_iff.mp (Except.ok.inj found)
          exact of_decide_eq_true (Option.filter_eq_some_iff.mp matched).2

theorem attempt_fits {rule : Rule κ} (bounded : ∀ trigger matcher, rule.recognizer = .procedure trigger matcher →
    ∀ window s capture, matcher window s = .ok (some capture) → capture.length ≤ window.length)
    (found : rule.attempt window s = .ok (some c)) : c.Fits window := by
  refine ⟨attempt_positive found, ?_⟩
  unfold Rule.attempt at found
  split at found
  · cases found
  · split at found
    · next p recognizer =>
      obtain ⟨length, matched, rfl⟩ := Option.map_eq_some_iff.mp (Except.ok.inj found)
      exact Pattern.findEnd?_le (Option.filter_eq_some_iff.mp matched).1
    · next trigger matcher recognizer =>
      split at found
      · cases found
      · split at found
        · cases found
        · next capture? captured =>
          obtain ⟨capture, matched, rfl⟩ := Option.map_eq_some_iff.mp (Except.ok.inj found)
          obtain ⟨rfl, -⟩ := Option.filter_eq_some_iff.mp matched
          exact bounded trigger matcher recognizer window s capture captured

theorem update_fits {standing : Standing κ} {outcome : Except Text (Option (Candidate κ))}
    (best : ∀ c, standing.best = some c → c.Fits window) (new : ∀ c, outcome = .ok (some c) → c.Fits window)
    (found : (standing.update outcome).best = some c) : c.Fits window := by
  unfold Standing.update at found
  split at found
  · exact best c found
  · exact best c found
  · next d =>
    split at found
    · obtain rfl := Option.some.inj found
      exact new d rfl
    · exact best c found

theorem select_fits {g : Grammar κ} (bounded : g.Bounded) (won : select g.rules window s = .ok c) : c.Fits window := by
  have all (rules : List (Rule κ)) (inside : ∀ rule ∈ rules, rule ∈ g.rules) (first : Standing κ)
      (fits : ∀ c, first.best = some c → c.Fits window) :
      ∀ c, (rules.foldl (fun standing rule => standing.update (rule.attempt window s)) first).best = some c →
        c.Fits window := by
    induction rules generalizing first with
    | nil => exact fits
    | cons rule rules ih =>
      refine ih (fun r member => inside r (List.mem_cons_of_mem _ member)) _ fun c found => ?_
      exact update_fits fits (fun c new => attempt_fits (bounded rule (inside rule List.mem_cons_self)) new) found
  have best := all g.rules (fun _ => id) {} fun c none => nomatch none
  unfold select at won
  dsimp only at won
  split at won
  · next d found _ =>
    cases won
    exact best c found
  · next d _ found _ =>
    split at won
    · cases won
      exact best c found
    · cases won
  · cases won
  · cases won

theorem throughFirst?_le {target t : Text} {length : Nat} (found : throughFirst? target t = some length) :
    length ≤ t.length := by
  induction t generalizing length with
  | nil =>
    unfold throughFirst? at found
    split at found
    · exact Nat.le_of_eq (Option.some.inj found).symm
    · cases found
  | cons c rest ih =>
    unfold throughFirst? at found
    split at found
    · next opened =>
      obtain ⟨after, eq⟩ := Option.isSome_iff_exists.mp opened
      obtain rfl := Option.some.inj found
      rw [eq_append_of_afterOpening? eq, List.length_append]
      exact Nat.le_add_right _ _
    · obtain ⟨n, later, rfl⟩ := Option.map_eq_some_iff.mp found
      exact Nat.succ_le_succ (ih later)

/-- A procedure that is described by data matches no more than it sees. -/
theorem Scan.matcher_le {scan : Scan} {capture : Capture} (found : scan.matcher window s = .ok (some capture)) :
    capture.length ≤ window.length := by
  unfold Scan.matcher at found
  cases scan with
  | balanced opening closing =>
    dsimp only at found
    split at found
    · next length closes =>
      obtain rfl := Option.some.inj (Except.ok.inj found)
      exact (balancedLength?_le closes).2
    · cases found
  | through target lexeme =>
    obtain ⟨length, reached, rfl⟩ := Option.map_eq_some_iff.mp (Except.ok.inj found)
    exact throughFirst?_le reached
  | nothing =>
    obtain rfl := Option.some.inj (Except.ok.inj found)
    exact Nat.zero_le _
  | absent => cases found
  | fail message => cases found

end Lexer

end Netlist
