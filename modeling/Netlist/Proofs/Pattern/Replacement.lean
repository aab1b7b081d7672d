import Netlist.Proofs.Pattern.Reads

/-!
Replacement as a scan of the text. With a pattern that reads like a parser, whether a match starts at a
place depends on the text behind it only, so matches are replaced and other characters kept from left to
right, wherever the scan has begun.
-/
namespace Netlist.Pattern
open Cursor

theorem findFrom_skipped (p : Pattern) (before : Option Char) (offset : Nat) (skipped t : Text) :
    p.findFrom before offset skipped t =
      (p.findFrom before offset [] t).map fun found => { found with skipped := skipped.reverse ++ found.skipped } := by
  induction t generalizing before offset skipped with
  | nil =>
    unfold findFrom
    rcases (p.ends ⟨before, [], offset⟩).head? with _ | e <;> simp
  | cons x t ih =>
    unfold findFrom
    rcases (p.ends ⟨before, x :: t, offset⟩).head? with _ | e
    · dsimp only
      rw [ih (some x) (offset + 1) (x :: skipped), ih (some x) (offset + 1) [x], Option.map_map]
      congr 1
      funext found
      simp
    · simp

section Scan
variable {p : Pattern} {f : Text → Option Text} {w t rest : Text}

theorem replaceFrom_found (reads : p.Reads f) {c : Cursor} (fuel : Nat) (read : f c.rest = some rest)
    (shorter : rest.length < c.rest.length) :
    ∃ e, e.rest = rest ∧ p.replaceFrom w (fuel + 1) c = w ++ p.replaceFrom w fuel e := by
  obtain ⟨before, text, offset⟩ := c
  obtain ⟨e, head, rfl⟩ := reads.found read
  refine ⟨e, rfl, ?_⟩
  obtain ⟨v, spans, _⟩ := (reaches_of_mem_ends (List.mem_of_mem_head? head)).consumes
  obtain ⟨x, more, rfl⟩ : ∃ x more, text = x :: more := by
    refine List.exists_cons_of_ne_nil ?_
    rintro rfl
    exact absurd shorter (Nat.not_lt_zero _)
  have moved : e.offset - offset ≠ 0 := by
    have offset' : e.offset = offset + v.length := spans.offset
    have length : (x :: more).length = v.length + e.rest.length := by rw [← List.length_append]; exact congrArg List.length spans.rest
    have shorter : e.rest.length < (x :: more).length := shorter
    omega
  have found : p.findFrom before offset [] (x :: more) = some ⟨[], (x :: more).take (e.offset - offset), e⟩ := by
    unfold findFrom
    rw [head]
    rfl
  have nonempty : ((x :: more).take (e.offset - offset)).isEmpty = false := by
    cases eq : e.offset - offset with
    | zero => exact absurd eq moved
    | succ n => rfl
  rw [replaceFrom, found]
  simp only [nonempty, List.nil_append, Bool.false_eq_true, if_false]

theorem replaceFrom_kept (reads : p.Reads f) {before : Option Char} {x : Char} {offset : Nat} (fuel : Nat)
    (read : f (x :: t) = none) :
    p.replaceFrom w (fuel + 1) ⟨before, x :: t, offset⟩ = x :: p.replaceFrom w (fuel + 1) ⟨some x, t, offset + 1⟩ := by
  have stuck : p.ends ⟨before, x :: t, offset⟩ = [] := reads.absent read
  have onward : p.findFrom before offset [] (x :: t) = p.findFrom (some x) (offset + 1) [x] t := by
    conv => lhs; unfold findFrom
    rw [stuck]
    rfl
  rw [replaceFrom, replaceFrom, onward, findFrom_skipped]
  rcases p.findFrom (some x) (offset + 1) [] t with _ | found
  · rfl
  · simp

theorem replaceFrom_nil (reads : p.Reads f) {c : Cursor} (fuel : Nat) (read : f [] = none) (empty : c.rest = []) :
    p.replaceFrom w (fuel + 1) c = [] := by
  have stuck : p.ends c = [] := reads.absent (by rw [empty]; exact read)
  obtain ⟨before, text, offset⟩ := c
  obtain rfl : text = [] := empty
  rw [replaceFrom, findFrom, stuck]
  rfl

/-- What is replaced depends on the text alone, if there is fuel for all of it. -/
theorem replaceFrom_congr (reads : p.Reads f) (consuming : p.nullable = false)
    {c d : Cursor} {fuel fuel' : Nat} (same : c.rest = d.rest) (enough : c.rest.length < fuel) (enough' : c.rest.length < fuel') :
    p.replaceFrom w fuel c = p.replaceFrom w fuel' d := by
  induction size : c.rest.length using Nat.strongRecOn generalizing c d fuel fuel' with
  | ind n ih =>
    obtain ⟨fuel, rfl⟩ := Nat.exists_eq_succ_of_ne_zero (Nat.ne_zero_of_lt enough)
    obtain ⟨fuel', rfl⟩ := Nat.exists_eq_succ_of_ne_zero (Nat.ne_zero_of_lt enough')
    cases read : f c.rest with
    | some rest =>
      have shorter := reads.shorter consuming read
      obtain ⟨e, left, eq⟩ := replaceFrom_found (w := w) reads fuel read shorter
      rw [same] at read
      obtain ⟨e', left', eq'⟩ := replaceFrom_found (w := w) reads fuel' read (same ▸ shorter)
      have measure := congrArg List.length left
      have behind : p.replaceFrom w fuel e = p.replaceFrom w fuel' e' :=
        ih rest.length (by omega) (left.trans left'.symm) (by omega) (by omega) measure
      rw [eq, eq', behind]
    | none =>
      obtain ⟨before, text, offset⟩ := c
      obtain ⟨before', text', offset'⟩ := d
      obtain rfl : text = text' := same
      cases text with
      | nil => rw [replaceFrom_nil reads fuel read rfl, replaceFrom_nil reads fuel' read rfl]
      | cons x t =>
        have longer : t.length < (x :: t).length := Nat.lt_succ_self _
        have size : (x :: t).length = n := size
        have enough : (x :: t).length < fuel + 1 := enough
        have enough' : (x :: t).length < fuel' + 1 := enough'
        rw [replaceFrom_kept reads fuel read, replaceFrom_kept reads fuel' read]
        exact congrArg (List.cons x) (ih t.length (by omega) (c := ⟨some x, t, offset + 1⟩) (d := ⟨some x, t, offset' + 1⟩) rfl
          (Nat.lt_trans longer enough) (Nat.lt_trans longer enough') rfl)

end Scan

namespace Reads
variable {p : Pattern} {f : Text → Option Text} {t rest : Text}

theorem replaceAll_found (reads : p.Reads f) (consuming : p.nullable = false) (w : Text)
    (read : f t = some rest) : p.replaceAll w t = w ++ p.replaceAll w rest := by
  have shorter := reads.shorter consuming read
  obtain ⟨e, left, eq⟩ := replaceFrom_found (w := w) reads t.length (c := .start t) read shorter
  have same : e.rest = (Cursor.start rest).rest := left
  have enough : e.rest.length < t.length := by rw [left]; exact shorter
  rw [replaceAll, eq, replaceAll, replaceFrom_congr reads consuming same enough (by rw [left]; exact Nat.lt_succ_self _)]

theorem replaceAll_kept (reads : p.Reads f) (consuming : p.nullable = false) (w : Text) {x : Char}
    (read : f (x :: t) = none) : p.replaceAll w (x :: t) = x :: p.replaceAll w t := by
  rw [replaceAll, Cursor.start, replaceFrom_kept reads _ read, replaceAll]
  have longer : t.length < (x :: t).length := Nat.lt_succ_self _
  exact congrArg (List.cons x) (replaceFrom_congr reads consuming rfl (Nat.lt_succ_of_lt longer) (Nat.lt_succ_self _))

theorem replaceAll_append (reads : p.Reads f) (consuming : p.nullable = false) (w : Text)
    {kept : Text} (none : ∀ x more, (x :: more) <:+ kept → f (x :: more ++ t) = none) :
    p.replaceAll w (kept ++ t) = kept ++ p.replaceAll w t := by
  induction kept with
  | nil => rfl
  | cons x kept ih =>
    have here : f (x :: (kept ++ t)) = Option.none := none x kept List.suffix_rfl
    rw [List.cons_append, reads.replaceAll_kept consuming w here,
      ih fun y more suffix => none y more (suffix.trans (List.suffix_cons _ _)), List.cons_append]

theorem replaceAll_nil (reads : p.Reads f) (w : Text) (read : f [] = none) : p.replaceAll w [] = [] :=
  replaceFrom_nil reads _ read rfl

theorem head?_eq_none (reads : p.Reads f) {c : Cursor} : (p.ends c).head? = none ↔ f c.rest = none := by
  constructor
  · intro stuck
    cases read : f c.rest with
    | none => rfl
    | some rest =>
      obtain ⟨e, head, _⟩ := reads.found read
      rw [stuck] at head
      cases head
  · intro read
    rw [reads.absent read]
    rfl

theorem findFrom_eq_none (reads : p.Reads f) {before : Option Char} {offset : Nat} {skipped : Text} :
    p.findFrom before offset skipped t = none ↔ ∀ u, u <:+ t → f u = none := by
  induction t generalizing before offset skipped with
  | nil =>
    rw [findFrom, Option.map_eq_none_iff, reads.head?_eq_none]
    exact ⟨fun read u suffix => by rwa [List.suffix_nil.mp suffix], fun every => every [] List.suffix_rfl⟩
  | cons x t ih =>
    rw [findFrom]
    cases head : (p.ends ⟨before, x :: t, offset⟩).head? with
    | some e =>
      refine ⟨nofun, fun every => ?_⟩
      rw [reads.head?_eq_none.mpr (every (x :: t) List.suffix_rfl)] at head
      cases head
    | none =>
      refine ih.trans ⟨fun every u suffix => ?_, fun every u suffix => every u (suffix.trans (List.suffix_cons x t))⟩
      rcases List.suffix_cons_iff.mp suffix with rfl | inner
      · exact reads.head?_eq_none.mp head
      · exact every u inner

theorem findEnd?_eq_none (reads : p.Reads f) (free : p.anchored = false) (t : Text) :
    p.findEnd? t = none ↔ ∀ u, u <:+ t → f u = none := by
  rw [findEnd?, if_neg (by simp [free]), Option.map_eq_none_iff, reads.findFrom_eq_none]

end Reads

end Netlist.Pattern
