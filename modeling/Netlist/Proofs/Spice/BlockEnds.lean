import Netlist.Proofs.Spice.Blocks
import Netlist.Proofs.Spice.Keywords

/-!
Where a block comment ends. The end mark wins wherever it stands at the place that has been reached, and the
other parts of the comment stop in front of it, but for a comment behind a dollar sign. That one takes up the
rest of its line, whatever stands there.
-/
namespace Netlist.Spice

open Lexer Pattern Cursor

variable {o : Options} {file : Option Text} {keep : Bool} {t window : Text} {s : State Kind} {S S' : Lexer.Stream Kind}
  {token : Token Kind} {tokens inner : List (Token Kind)} {c : Candidate Kind} {r : Rule Kind}

/-- Whether a text begins with the end mark, in any letter case and with no word character behind it. -/
def endsBlock (t : Text) : Bool := asciiLower (t.take 7) == chars "#endcom" && !(t.drop 7).head?.any isWord

theorem endsBlock_iff : endsBlock t = true ↔
    ∃ mark behind, t = mark ++ behind ∧ asciiLower mark = chars "#endcom" ∧ behind.head?.any isWord = false := by
  simp only [endsBlock, Bool.and_eq_true, beq_iff_eq, Bool.not_eq_true']
  constructor
  · rintro ⟨same, alone⟩
    exact ⟨_, _, (List.take_append_drop 7 t).symm, same, alone⟩
  · rintro ⟨mark, behind, rfl, same, alone⟩
    have length : mark.length = 7 := by simpa [asciiLower, chars] using congrArg List.length same
    rw [← length, List.take_left, List.drop_left]
    exact ⟨same, alone⟩

theorem endMark_inside {mark : Text} (same : asciiLower mark = chars "#endcom") : ∀ x ∈ mark, isLineBreak x = false := by
  intro x member
  have lower : x.toLower ∈ chars "#endcom" := same ▸ List.mem_map_of_mem member
  rw [Bool.eq_false_iff]
  intro broken
  simp only [isLineBreak, Bool.or_eq_true, beq_iff_eq] at broken
  rcases broken with rfl | rfl <;> simp [chars] at lower

theorem endsBlock_view (w : Window) (k : Continuation) (t : Text) : endsBlock (w.view k t) = endsBlock t := by
  obtain ⟨more, pieces, seam⟩ := w.view_pieces k t
  by_cases last : more = []
  · rw [last, List.append_nil] at pieces
    exact congrArg endsBlock pieces.symm
  · obtain ⟨x, final, broken⟩ := (seam last).broken
    -- What rules see ends with a line break, which is no part of a mark.
    have apart {mark behind : Text} (same : asciiLower mark = chars "#endcom") (view : w.view k t = mark ++ behind) :
        behind ≠ [] := by
      rintro rfl
      rw [view, List.append_nil] at final
      simp [endMark_inside same x (List.mem_of_getLast? final)] at broken
    rw [Bool.eq_iff_iff, endsBlock_iff, endsBlock_iff]
    constructor
    · rintro ⟨mark, behind, view, same, alone⟩
      refine ⟨mark, behind ++ more, ?_, same, ?_⟩
      · rw [pieces, view, List.append_assoc]
      · obtain ⟨y, behind, rfl⟩ := List.exists_cons_of_ne_nil (apart same view)
        exact alone
    · rintro ⟨mark, behind, text, same, alone⟩
      rcases List.append_eq_append_iff.mp (pieces.symm.trans text) with ⟨between, rfl, _⟩ | ⟨between, view, rfl⟩
      · have inside := endMark_inside same x (List.mem_append_left _ (List.mem_of_getLast? final))
        simp [inside] at broken
      · obtain ⟨y, between, rfl⟩ := List.exists_cons_of_ne_nil (apart same view)
        exact ⟨mark, y :: between, view, same, alone⟩

/-! ### What the parts of a block comment match -/

def inlineComment : Pattern := inOrder [someBlanks, literally "$", restOfLine]

def fitsBlocks (r : Rule Kind) : Bool :=
  match r.recognizer with
  | .pattern p =>
    match r.kind with
    | .comment => !r.top || p == inlineComment.atStart
    | .blockCommentContent => p == blockContent.atStart
    | .blockCommentEnd => p == (keyword "#endcom").ignoringCase.atStart
    | kind => !insideBlock kind || !p.uses '#'
  | .procedure .. => true

theorem rules_fitBlocks (keep : Bool) : (grammar (fullOptions keep)).rules.all fitsBlocks = true := by
  cases keep <;> rfl

theorem exists_end_rule (offered : o.blockComments = true) : ∃ r ∈ (grammar o).rules, r.top = true ∧
    r.recognizer = .pattern (keyword "#endcom").ignoringCase.atStart ∧ ∀ s, r.applies s = s.inCommentBlock := by
  have present : blockComments o = _ := if_pos offered
  exact ⟨_, blockComments_subset o (present ▸ List.mem_cons_of_mem _ List.mem_cons_self), rfl, rfl, fun _ => rfl⟩

theorem hspiceComments_of_mem (member : r ∈ (grammar o).rules) (kind : r.kind = .comment) (top : r.top = true) :
    o.hspiceComments = true := by
  have all : (grammar o).rules.all (fun r => !(r.kind == .comment && r.top) || o.hspiceComments) = true := by
    simp only [grammar, lineComments, blockComments, buses, List.all_append, Bool.and_eq_true]
    refine ⟨⟨⟨⟨⟨⟨⟨⟨⟨⟨rfl, rfl⟩, ?_⟩, rfl⟩, rfl⟩, ?_⟩, ?_⟩, rfl⟩, rfl⟩, ?_⟩, rfl⟩
    all_goals repeat' split
    all_goals simp_all [titleRule, rule, keywordRule]
  simpa [kind, top] using List.all_eq_true.mp all r member

inductive Part (o : Options) (r : Rule Kind) (p : Pattern) : Prop
  | plain (kind : insideBlock r.kind = true) (other : r.kind ≠ .comment) (unsigned : p.uses '#' = false)
  | inline (kind : r.kind = .comment) (pattern : p = inlineComment) (offered : o.hspiceComments = true)
  | content (kind : r.kind = .blockCommentContent) (pattern : p = blockContent)
  | mark (kind : r.kind = .blockCommentEnd) (pattern : p = (keyword "#endcom").ignoringCase)

theorem Enclosed.exists_part (enclosed : Enclosed o s) (wins : c.Wins (grammar o).rules window s) :
    ∃ (p : Pattern) (e : Cursor), (p.ends (.start window)).head? = some e ∧
      Spans (window.take c.length) (.start window) e ∧ p.Consumes (window.take c.length) ∧ Part o c.rule p := by
  obtain ⟨p, e, recognizer, head, spans, consumes⟩ := exists_pattern wins enclosed.inside
  refine ⟨p, e, head, spans, consumes, ?_⟩
  have fits := all_rules rules_fitBlocks wins.mem
  simp only [fitsBlocks, recognizer] at fits
  have same {q : Pattern} (fits : (p.atStart == q.atStart) = true) : p = q := (Pattern.seq.inj (beq_iff_eq.mp fits)).2
  split at fits
  · next kind =>
    rcases enclosed.top_or_break wins with top | other | other
    · rw [top, Bool.not_true, Bool.false_or] at fits
      exact .inline kind (same fits) (hspiceComments_of_mem wins.mem kind top)
    · simp [kind] at other
    · simp [kind] at other
  · next kind => exact .content kind (same fits)
  · next kind => exact .mark kind (same fits)
  · next other _ last =>
    have inside := (enclosed.kind wins).resolve_right last
    simp only [inside, Bool.not_true, Bool.false_or, Bool.not_eq_true', Pattern.atStart, Pattern.uses] at fits
    exact .plain inside other fits

/-- A part of a block comment other than a comment in a line is a number sign or holds none. -/
theorem Enclosed.sign_apart (enclosed : Enclosed o s) (wins : c.Wins (grammar o).rules window s)
    (part : insideBlock c.rule.kind = true) (other : c.rule.kind ≠ .comment) :
    window.take c.length = ['#'] ∨ '#' ∉ window.take c.length := by
  obtain ⟨p, e, head, spans, consumes, shape⟩ := enclosed.exists_part wins
  have unused {w : Text} {q : Pattern} (never : q.uses '#' = false) (consumes : q.Consumes w) : '#' ∉ w :=
    fun member => by simp [consumes.inside '#' member] at never
  cases shape with
  | plain _ _ unsigned => exact .inr (unused unsigned consumes)
  | inline kind _ _ => exact absurd kind other
  | content _ same =>
    subst same
    rcases reaches_of_mem_ends (List.mem_of_mem_head? head) with text | sign
    · obtain ⟨w, spans', consumes'⟩ := Reaches.consumes text
      obtain rfl := spans.unique spans'
      exact .inr (unused rfl consumes')
    · obtain ⟨x, rest, eq, inside, rfl⟩ := sign
      obtain rfl := eq_of_contains_single inside
      have one : Spans ['#'] (.start window) ⟨some '#', rest, 0 + 1⟩ := ⟨eq, rfl, rfl⟩
      exact .inl (spans.unique one)
  | mark kind _ => simp [kind, insideBlock] at part

/-- The text of a comment inside a line, from the blanks in front of its dollar sign on. -/
structure Inline (w : Text) : Prop where
  written : ∃ blank text, w = blank ++ '$' :: text ∧ blank ≠ [] ∧ ∀ x ∈ blank, isBlank x = true
  inside : ∀ x ∈ w, isLineBreak x = false

theorem Inline.head {w : Text} (inline : Inline w) : w.head?.any isBlank = true := by
  obtain ⟨blank, text, rfl, positive, blanks⟩ := inline.written
  obtain ⟨x, blank, rfl⟩ := List.exists_cons_of_ne_nil positive
  exact blanks x List.mem_cons_self

/-- A comment inside a line goes up to the end of that line. -/
theorem inlineComment_head? {e : Cursor} (head : (inlineComment.ends (.start window)).head? = some e) :
    ∃ w, Spans w (.start window) e ∧ Inline w ∧ ∀ x, e.rest.head? = some x → isLineBreak x = true := by
  obtain ⟨d, first, later⟩ := head?_collect head
  obtain ⟨d', second, last⟩ := head?_collect later
  obtain ⟨blank, spans, consumes⟩ := (reaches_of_mem_ends first).consumes
  obtain ⟨x, rest, eq, inside, rfl⟩ := reaches_of_mem_ends second
  obtain rfl : x = '$' := eq_of_contains_single inside
  obtain ⟨e', head', behind⟩ := restOfLine_head? ⟨some '$', rest, d.offset + 1⟩
  obtain rfl := Option.some.inj (last.symm.trans head')
  have sign : Spans ['$'] d ⟨some '$', rest, d.offset + 1⟩ := ⟨eq, rfl, rfl⟩
  have positive : blank ≠ [] := fun empty => nomatch consumes.nullable empty
  have blanks : ∀ x ∈ blank, isBlank x = true :=
    fun x member => (congrFun contains_blanks x).symm.trans (consumes.inside x member)
  refine ⟨_, (spans.trans sign).trans behind, ⟨⟨blank, rest.takeWhile (!isLineBreak ·), by simp, positive, blanks⟩, fun x member => ?_⟩, fun x head => ?_⟩
  · simp only [List.mem_append, List.mem_singleton] at member
    rcases member with (member | rfl) | member
    · exact not_isLineBreak_of_isBlank (blanks x member)
    · rfl
    · simpa using List.all_eq_true.mp List.all_takeWhile x member
  · have stops : e.rest = rest.dropWhile (!isLineBreak ·) :=
      List.append_cancel_left (behind.rest.symm.trans List.takeWhile_append_dropWhile.symm)
    have last := List.head?_dropWhile_not (!isLineBreak ·) rest
    rw [← stops, head] at last
    simpa using last

theorem Enclosed.mark (enclosed : Enclosed o s) (wins : c.Wins (grammar o).rules window s)
    (last : c.rule.kind = .blockCommentEnd) : endsBlock window = true ∧ c.length = 7 := by
  obtain ⟨p, e, head, spans, _, shape⟩ := enclosed.exists_part wins
  obtain ⟨_, fits⟩ := attempt_fits (grammar_bounded o _ wins.mem) wins.found
  cases shape with
  | plain kind _ _ => simp [last, insideBlock] at kind
  | inline kind _ _ => simp [last] at kind
  | content kind _ => simp [last] at kind
  | mark _ same =>
    subst same
    have reached := reaches_of_mem_ends (List.mem_of_mem_head? head)
    obtain ⟨w, spans', same, alone⟩ := exists_of_keyword (List.all_eq_true.mp (by decide +kernel)) (by decide +kernel) reached
    refine ⟨endsBlock_iff.mpr ⟨w, e.rest, spans'.rest, same, alone⟩, ?_⟩
    have length := congrArg List.length same
    rw [← spans.unique spans', asciiLower, List.length_map, List.length_take_of_le fits] at length
    exact length

theorem Enclosed.comment (enclosed : Enclosed o s) (wins : c.Wins (grammar o).rules window s)
    (kind : c.rule.kind = .comment) : o.hspiceComments = true ∧ Inline (window.take c.length) ∧
      ∀ x, (window.drop c.length).head? = some x → isLineBreak x = true := by
  obtain ⟨p, e, head, spans, _, shape⟩ := enclosed.exists_part wins
  obtain ⟨_, fits⟩ := attempt_fits (grammar_bounded o _ wins.mem) wins.found
  cases shape with
  | plain _ other _ => exact absurd kind other
  | content other _ => simp [kind] at other
  | mark other _ => simp [kind] at other
  | inline _ same offered =>
    subst same
    obtain ⟨w, spans', inline, stops⟩ := inlineComment_head? head
    have behind : window.drop (window.take c.length).length = e.rest := spans.drop
    rw [List.length_take_of_le fits] at behind
    rw [behind]
    exact ⟨offered, spans.unique spans' ▸ inline, stops⟩

theorem eq_of_toLower_sign {x : Char} (lower : x.toLower = '#') : x = '#' := by
  rcases Nat.lt_or_ge x.toNat 128 with ascii | beyond
  · have all : ∀ c : Char, c.toNat < 128 → c.toLower = '#' → c = '#' := forall_ascii (by decide +kernel)
    exact all x ascii lower
  · rwa [toLower_of_le beyond] at lower

theorem head?_of_endsBlock (ends : endsBlock t = true) : t.head? = some '#' := by
  obtain ⟨mark, behind, rfl, same, _⟩ := endsBlock_iff.mp ends
  cases mark with
  | nil => cases same
  | cons x mark => exact congrArg some (eq_of_toLower_sign (List.cons.inj same).1)

/-- The end mark wins where it stands. -/
theorem Enclosed.kind_of_endsBlock (enclosed : Enclosed o s) (wins : c.Wins (grammar o).rules window s)
    (ends : endsBlock window = true) : c.rule.kind = .blockCommentEnd := by
  obtain ⟨rest, sign⟩ := List.head?_eq_some_iff.mp (head?_of_endsBlock ends)
  obtain ⟨mark, behind, text, same, alone⟩ := endsBlock_iff.mp ends
  obtain ⟨r, member, top, recognizer, applies⟩ := exists_end_rule enclosed.offered
  have length : mark.length = 7 := by simpa [asciiLower, chars] using congrArg List.length same
  have spans : Spans mark (.start window) ⟨mark.getLast?.or none, behind, 0 + mark.length⟩ := ⟨text, rfl, rfl⟩
  have only := keyword_ends (List.all_eq_true.mp (by decide +kernel)) (by decide +kernel) same spans alone
  obtain ⟨d, found, size⟩ := exists_attempt recognizer ((applies s).trans enclosed.inside) (congrArg List.head? only)
    (by simp [length])
  -- Whatever wins is on top and no shorter than the mark, so it begins with the number sign and goes on.
  have long : 7 ≤ c.length := by
    have held := wins.not_beaten member found
    have first := wins.top member top found
    simp only [Candidate.beats, attempt_rule found, top, first, size] at held
    simpa [length] using held
  have first : (window.take c.length).head? = some '#' := by
    obtain ⟨n, eq⟩ := Nat.exists_eq_add_of_le' (Nat.lt_of_lt_of_le (Nat.succ_pos 6) long)
    simp [eq, sign]
  rcases enclosed.kind wins with inside | last
  · by_cases comment : c.rule.kind = .comment
    · have blank := (enclosed.comment wins comment).2.1.head
      rw [first] at blank
      cases blank
    · rcases enclosed.sign_apart wins inside comment with short | outside
      · obtain ⟨_, fits⟩ := attempt_fits (grammar_bounded o _ wins.mem) wins.found
        have one := congrArg List.length short
        rw [List.length_take_of_le fits, List.length_singleton] at one
        omega
      · exact absurd (List.mem_of_head? first) outside
  · exact last

/-! ### The run up to the end -/

structure LineComment (o : Options) (comment : Token Kind) (behind : Text) : Prop where
  kind : comment.kind = .comment
  offered : o.hspiceComments = true
  text : Inline comment.raw
  stops : ∀ x, behind.head? = some x → isLineBreak x = true

theorem Enclosed.lineComment (enclosed : Enclosed o S.state) (steps : Steps o S token S' c)
    (rest : S.rest = token.raw ++ S'.rest) (kind : token.kind = .comment) : LineComment o token S'.rest := by
  obtain ⟨offered, inline, stops⟩ := enclosed.beforeMatch.comment steps.wins (steps.kind ▸ kind)
  rw [← steps.raw] at inline
  refine ⟨kind, offered, inline, fun x head => ?_⟩
  obtain ⟨seen, more, view, behind, seam⟩ := steps.pieces rest
  have eq : (o.window.view .netlist S.rest).drop c.length = seen := by
    have whole := List.take_append_drop c.length (o.window.view .netlist S.rest)
    rw [← steps.raw] at whole
    exact List.append_cancel_left (whole.trans view)
  rw [behind] at head
  cases seen with
  | cons y seen => exact stops x (eq ▸ head)
  | nil =>
    -- The comment would end what rules see, which ends with a line break.
    have nonempty : more ≠ [] := by
      rintro rfl
      cases head
    rw [List.append_nil] at view
    obtain ⟨y, last, broken⟩ := (seam nonempty).broken
    rw [view] at last
    simp [inline.inside y (List.mem_of_getLast? last)] at broken

theorem Enclosed.ends (enclosed : Enclosed o S.state) (steps : Steps o S token S' c) (last : token.kind = .blockCommentEnd) :
    endsBlock S.rest = true ∧ token.raw = S.rest.take 7 ∧ S'.state.inCommentBlock = false := by
  obtain ⟨ends, length⟩ := enclosed.beforeMatch.mark steps.wins (steps.kind ▸ last)
  obtain ⟨_, fits⟩ := attempt_fits (grammar_bounded o _ steps.wins.mem) steps.wins.found
  obtain ⟨more, pieces, _⟩ := o.window.view_pieces .netlist S.rest
  refine ⟨endsBlock_view _ _ _ ▸ ends, ?_, ?_⟩
  · rw [steps.raw, length]
    conv => rhs; rw [pieces]
    exact (List.take_append_of_le_length (length ▸ fits)).symm
  · rw [steps.inCommentBlock, last, blockAfter]

/-- An end mark that begins inside a part of a block comment begins behind the first blank of a comment in a line. -/
theorem Enclosed.lineComment_of_mark (enclosed : Enclosed o S.state) (steps : Steps o S token S' c)
    (rest : S.rest = token.raw ++ S'.rest) (part : insideBlock token.kind = true) {before between : Text} {x : Char}
    (raw : token.raw = before ++ x :: between) (mark : endsBlock (x :: between ++ S'.rest) = true) :
    LineComment o token S'.rest ∧ before ≠ [] := by
  obtain rfl : x = '#' := Option.some.inj (head?_of_endsBlock mark)
  by_cases comment : token.kind = .comment
  · have inline := enclosed.lineComment steps rest comment
    refine ⟨inline, ?_⟩
    rintro rfl
    have blank := inline.text.head
    rw [raw] at blank
    cases blank
  · rw [steps.kind] at part comment
    rcases enclosed.beforeMatch.sign_apart steps.wins part comment with sign | none
    · rw [← steps.raw, raw] at sign
      obtain ⟨rfl, -⟩ : before = [] ∧ between = [] := by simpa [List.append_eq_cons_iff] using sign
      have here : S.rest = '#' :: between ++ S'.rest := rest.trans (by rw [raw, List.nil_append])
      rw [← here, ← endsBlock_view o.window .netlist] at mark
      simp [enclosed.beforeMatch.kind_of_endsBlock steps.wins mark, insideBlock] at part
    · exact absurd (by simp [← steps.raw, raw]) none

/-- What is matched inside a block comment passes no end mark outside a comment in a line. -/
theorem Enclosed.passes (enclosed : Enclosed o S.state) (run : Matched (lexer o file keep) S inner S')
    (parts : ∀ token ∈ inner, insideBlock token.kind = true) {before behind : Text} (text : S.rest = before ++ behind)
    (mark : endsBlock behind = true) (passed : before.length < (inner.flatMap Token.raw).length) :
    ∃ front comment back, inner = front ++ comment :: back ∧
      LineComment o comment (back.flatMap Token.raw ++ S'.rest) ∧ (front.flatMap Token.raw).length < before.length ∧
      before.length < ((front ++ [comment]).flatMap Token.raw).length := by
  induction run generalizing before with
  | none S => cases passed
  | @more S S₁ S' token later nonempty step run ih =>
    obtain ⟨c, steps⟩ := step_spec step
    have consumes := step_consumes (grammar_bounded o) step
    have rest := (run.consumes (grammar_bounded o)).1
    obtain ⟨part, parts⟩ := List.forall_mem_cons.mp parts
    have goes : token.kind ≠ .blockCommentEnd := fun last => by simp [last, insideBlock] at part
    have further (skipped : Text) (eq : before = token.raw ++ skipped) (text : S₁.rest = skipped ++ behind) :
        ∃ front comment back, token :: later = front ++ comment :: back ∧
          LineComment o comment (back.flatMap Token.raw ++ S'.rest) ∧ (front.flatMap Token.raw).length < before.length ∧
          before.length < ((front ++ [comment]).flatMap Token.raw).length := by
      rw [eq, List.flatMap_cons, List.length_append, List.length_append] at passed
      obtain ⟨front, comment, back, rfl, inline, first, second⟩ := ih (enclosed.onward steps goes) parts text (by omega)
      exact ⟨token :: front, comment, back, rfl, inline, by simpa [eq] using first, by simpa [eq] using second⟩
    rcases List.append_eq_append_iff.mp (consumes.rest.symm.trans text) with ⟨skipped, eq, text'⟩ | ⟨between, raw, eq⟩
    · exact further skipped eq text'
    · cases between with
      | nil => exact further [] (by simp [raw]) eq.symm
      | cons x between =>
        obtain ⟨inline, first⟩ := enclosed.lineComment_of_mark steps consumes.rest part raw (eq ▸ mark)
        rw [rest] at inline
        exact ⟨[], token, later, rfl, inline, List.length_pos_iff.mpr first, by simp [raw]⟩

/-- A block comment goes up to an end mark, in any letter case, or to the end of the text. The end marks before
that stand in comments that a dollar sign starts behind a blank. -/
theorem block_ends (run : Matched (lexer o file keep) { rest := t } tokens S) (inside : S.state.inCommentBlock = true) :
    ∃ inner S', Matched (lexer o file keep) S inner S' ∧ (∀ token ∈ inner, insideBlock token.kind = true) ∧
      S'.state.inCommentBlock = true ∧
      (S'.rest = [] ∨ (endsBlock S'.rest = true ∧ ∃ mark S'', (lexer o file keep).step S' = .ok (mark, S'') ∧
        mark.kind = .blockCommentEnd ∧ mark.raw = S'.rest.take 7 ∧ S''.state.inCommentBlock = false)) ∧
      ∀ before behind, S.rest = before ++ behind → endsBlock behind = true →
        before.length < (inner.flatMap Token.raw).length →
        ∃ front comment back, inner = front ++ comment :: back ∧
          LineComment o comment (back.flatMap Token.raw ++ S'.rest) ∧ (front.flatMap Token.raw).length < before.length ∧
          before.length < ((front ++ [comment]).flatMap Token.raw).length := by
  have enclosed := enclosed_of_matched run inside
  obtain ⟨inner, S', through, kinds, enclosed', ending⟩ := enclosed.exists_run file keep
  have parts : ∀ token ∈ inner, insideBlock token.kind = true := fun token member => (kinds token member).1
  refine ⟨inner, S', through, parts, enclosed'.inside, ?_, fun _ _ text mark => enclosed.passes through parts text mark⟩
  rcases ending with empty | ⟨_, mark, S'', c, step, steps, last⟩
  · exact .inl empty
  · obtain ⟨ends, raw, outside⟩ := enclosed'.ends steps last
    exact .inr ⟨ends, mark, S'', step, last, raw, outside⟩

/-- A name that begins like the end mark, and the end mark behind it. -/
theorem block_ends_EndCom :
    let lexer := lexer {} none false
    ∃ mark S, lexer.step { rest := chars "#com #endcoms\n#EndCom\na" } = .ok (mark, S) ∧
      S.state.inCommentBlock = true ∧ ∃ inner S', Matched lexer S inner S' ∧
        (S'.rest = [] ∨ endsBlock S'.rest = true) := by
  intro lexer
  obtain ⟨mark, S, step, inside⟩ := exists_step_of_any lexer { rest := chars "#com #endcoms\n#EndCom\na" }
    (·.2.state.inCommentBlock) (by decide +kernel)
  obtain ⟨inner, S', run, _, _, ending, _⟩ := block_ends (.single (by decide) step) inside
  exact ⟨mark, S, step, inside, inner, S', run, ending.imp_right And.left⟩

/-- A comment behind a dollar sign hides the end mark, and the rest of the text is taken for the block comment. -/
theorem block_ends_ne_first :
    chars "#com $ #endcom\na" = chars "#com $ " ++ chars "#endcom\na" ∧ endsBlock (chars "#endcom\na") = true ∧
    ((lexer {} none true).tokenize { rest := chars "#com $ #endcom\na" }).toOption.map (List.map (·.kind)) =
      some [.blockCommentStart, .comment, .newline, .blockCommentContent, .eof] := by
  decide +kernel

end Netlist.Spice
