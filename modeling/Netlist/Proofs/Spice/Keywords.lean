import Netlist.Proofs.Spice.Markers

/-!
Keywords. A word that is matched letter by letter in either case has one match, which is the word up to
the case of its letters, and a keyword has it only where no word character follows.
-/
namespace Netlist

namespace Pattern

theorem ignoringCase_inOrder (ps : List Pattern) : (inOrder ps).ignoringCase = inOrder (ps.map ignoringCase) := by
  induction ps with
  | nil => rfl
  | cons p ps ih =>
    cases ps with
    | nil => rfl
    | cons q ps => exact congrArg (seq p.ignoringCase) ih

end Pattern

namespace Spice

open Pattern Cursor

def isPlain (c : Char) : Bool :=
  decide (c.toNat < 128) && c != '\x00' && c.toLower == c && c != 'k' && c != 's'

def letter (c : Char) : Pattern := .set (.ignoringCase (.single c))

theorem literally_ignoringCase (s : String) : (literally s).ignoringCase = inOrder ((chars s).map letter) := by
  rw [literally, ignoringCase_inOrder, List.map_map]
  rfl

theorem contains_letter {c x : Char} (plain : isPlain c = true) :
    (CharSet.ignoringCase (.single c)).contains x = true ↔ x.toLower = c := by
  simp only [isPlain, Bool.and_eq_true, decide_eq_true_eq, bne_iff_ne, beq_iff_eq] at plain
  obtain ⟨⟨⟨⟨ascii, notNull⟩, lower⟩, other⟩, other'⟩ := plain
  rw [← mem_letterForms_iff ascii notNull lower ⟨other, other'⟩]
  simp [CharSet.contains]

variable {word w : Text} {c e : Cursor}

theorem ends_letters (plain : ∀ x ∈ word, isPlain x = true) (same : asciiLower w = word) (spans : Spans w c e) :
    (inOrder (word.map letter)).ends c = [e] := by
  induction word generalizing w c with
  | nil =>
    obtain rfl : w = [] := List.map_eq_nil_iff.mp same
    obtain rfl : e = c := spans.target (.here c)
    rfl
  | cons x word ih =>
    obtain ⟨y, w, rfl, lower, same⟩ := List.map_eq_cons_iff.mp same
    have inside := (contains_letter (plain x List.mem_cons_self)).mpr lower
    have first : (letter x).ends c = [⟨some y, w ++ e.rest, c.offset + 1⟩] := ends_set_mem spans.rest inside
    have behind : Spans w ⟨some y, w ++ e.rest, c.offset + 1⟩ e := by
      refine ⟨rfl, ?_, ?_⟩
      · rw [spans.offset, List.length_cons, Nat.add_assoc, Nat.add_comm 1]
      · rw [spans.before, List.getLast?_cons]
        cases w.getLast? <;> rfl
    cases word with
    | nil =>
      obtain rfl : w = [] := List.map_eq_nil_iff.mp same
      rw [behind.target (.here _)]
      exact first
    | cons z word =>
      have rest := ih (fun x member => plain x (List.mem_cons_of_mem _ member)) same behind
      change collect _ ((letter x).ends c) = [e]
      rw [first, collect, collect, merge_nil]
      exact rest

theorem exists_of_letters (plain : ∀ x ∈ word, isPlain x = true) (reached : (inOrder (word.map letter)).Reaches c e) :
    ∃ w, Spans w c e ∧ asciiLower w = word := by
  induction word generalizing c with
  | nil =>
    obtain rfl : e = c := reached
    exact ⟨[], .here e, rfl⟩
  | cons x word ih =>
    have first {d : Cursor} (reached : (letter x).Reaches c d) : ∃ y, Spans [y] c d ∧ y.toLower = x := by
      obtain ⟨y, rest, eq, inside, rfl⟩ := reached
      exact ⟨y, ⟨eq, rfl, rfl⟩, (contains_letter (plain x List.mem_cons_self)).mp inside⟩
    cases word with
    | nil =>
      obtain ⟨y, spans, lower⟩ := first reached
      exact ⟨[y], spans, congrArg (· :: []) lower⟩
    | cons z word =>
      obtain ⟨d, before, behind⟩ := reached
      obtain ⟨y, spans, lower⟩ := first before
      obtain ⟨w, spans', same⟩ := ih (fun x member => plain x (List.mem_cons_of_mem _ member)) behind
      refine ⟨y :: w, spans.trans spans', ?_⟩
      rw [← lower, ← same]
      rfl

@[simp] theorem isWord_toLower (x : Char) : isWord x.toLower = isWord x := by
  rcases Nat.lt_or_ge x.toNat 128 with ascii | beyond
  · have all : ∀ c : Char, c.toNat < 128 → isWord c.toLower = isWord c := forall_ascii (by decide +kernel)
    exact all x ascii
  · rw [toLower_of_le beyond]

/-- Behind a word a boundary is a place where no word character follows. -/
theorem holds_wordBoundary (last : (asciiLower w).getLast?.any isWord = true) (spans : Spans w c e) :
    Assertion.wordBoundary.holds e = !e.rest.head?.any isWord := by
  have before : e.before.any isWord = true := by
    rw [asciiLower, List.getLast?_map] at last
    rw [spans.before]
    cases here : w.getLast? with
    | none => simp [here] at last
    | some x => simpa [here] using last
  simp [Assertion.holds, before]

variable {s : String}

/-- A keyword matches its word in either case where no word character follows. -/
theorem keyword_ends (plain : ∀ x ∈ chars s, isPlain x = true) (last : (chars s).getLast?.any isWord = true)
    (same : asciiLower w = chars s) (spans : Spans w c e) (alone : e.rest.head?.any isWord = false) :
    (keyword s).ignoringCase.ends c = [e] := by
  have word : (literally s).ignoringCase.ends c = [e] := by
    rw [literally_ignoringCase]
    exact ends_letters plain same spans
  have boundary : Assertion.wordBoundary.holds e = true := by rw [holds_wordBoundary (same ▸ last) spans, alone, Bool.not_false]
  change collect _ ((literally s).ignoringCase.ends c) = [e]
  rw [word, collect, collect, merge_nil]
  exact if_pos boundary

theorem exists_of_keyword (plain : ∀ x ∈ chars s, isPlain x = true) (last : (chars s).getLast?.any isWord = true)
    (reached : (keyword s).ignoringCase.Reaches c e) :
    ∃ w, Spans w c e ∧ asciiLower w = chars s ∧ e.rest.head?.any isWord = false := by
  obtain ⟨d, word, boundary, rfl⟩ := reached
  rw [literally_ignoringCase] at word
  obtain ⟨w, spans, same⟩ := exists_of_letters plain word
  rw [holds_wordBoundary (same ▸ last) spans, Bool.not_eq_true'] at boundary
  exact ⟨w, spans, same, boundary⟩

end Spice

end Netlist
