import Netlist.Proofs.Line.Terminators
import Netlist.Proofs.Spice.State

/-!
Statements and logical lines. A netlist can be tokenized one logical line at a time, and outside of
titles and block comments the line breaks that are emitted end the logical lines.
-/
namespace Netlist.Spice

open Lexer

variable {o : Options} {file : Option Text} {keep : Bool} {t : Text} {s s' : Lexer.Stream Kind} {token : Token Kind}
  {tokens : List (Token Kind)} {c : Candidate Kind} {window w : Text} {r : Rule Kind}

/-! ### Line by line -/

/-- Unless rules see the whole text, logical lines that are read one at a time, from the state that the
one before leaves, yield what the text yields. -/
theorem byLine_eq_items (o : Options) (bounded : o.window ≠ .full) (file : Option Text) (keepSuppressed : Bool)
    {t : Text} (nonempty : t ≠ []) :
    (lexer o file keepSuppressed).byLine t {} (logicalLines .netlist t) =
      (lexer o file keepSuppressed).items { rest := t } :=
  byLine_logicalLines (grammar_bounded o) (grammar_blind o) bounded nonempty {}

/-- A comment that takes a marker, a line joined to it and a failure behind them. -/
theorem byLine_eq_items_comment :
    (chars "a $\\\n+ b\n\x7b" ≠ []) ∧
    (lexer {} none false).byLine (chars "a $\\\n+ b\n\x7b") {} (logicalLines .netlist (chars "a $\\\n+ b\n\x7b")) =
      (lexer {} none false).items { rest := chars "a $\\\n+ b\n\x7b" } :=
  ⟨by decide, byLine_eq_items {} (by decide) none false (by decide)⟩

/-- A text without lines still has the token that ends it. -/
theorem byLine_ne_items_nil :
    (lexer {} none false).byLine [] {} (logicalLines .netlist []) ≠ (lexer {} none false).items { rest := [] } := by
  intro same
  cases same

/-! ### Line breaks -/

/-- Whether a character neither breaks a line nor leaves open whether the line ends with a marker. -/
def isSolid (x : Char) : Bool := !isLineBreak x && !isBlank x && x != '\\'

def fitsLines (r : Rule Kind) : Bool :=
  match r.recognizer, r.kind with
  | .procedure .., kind => kind != .newline
  | .pattern p, .newline => p == lineBreak.atStart && !r.top
  | .pattern p, .continuation => p == currentLineMarker.atStart || p == nextLineMarker.atStart
  | .pattern p, .whitespace => p == someBlanks.atStart
  | .pattern p, .comment => !p.uses '\n' && !p.uses '\r'
  | .pattern _, .title | .pattern _, .blockCommentStart | .pattern _, .blockCommentEnd
  | .pattern _, .blockCommentContent => true
  | .pattern p, _ => ['\n', '\r', ' ', '\t', '\\'].all (!p.endsWith ·)

theorem rules_fitLines (keep : Bool) : (grammar (fullOptions keep)).rules.all fitsLines = true := by
  cases keep <;> rfl

theorem kind_of_bare (title : o.hasTitle = false) (blocks : o.blockComments = false) (member : r ∈ (grammar o).rules) :
    r.kind ≠ .title ∧ r.kind ≠ .blockCommentStart ∧ r.kind ≠ .blockCommentEnd ∧ r.kind ≠ .blockCommentContent := by
  have offered := offers_kind member
  refine ⟨?_, ?_, ?_, ?_⟩ <;> intro kind <;> simp [kind, offers, title, blocks] at offered

open Continuation in
/-- A current-line marker joins its line to the one behind it. -/
theorem openEnds_currentLineMarker {blanks behind rest : Text} (blank : ∀ x ∈ blanks, isBlank x = true)
    (broken : firstTerminator behind ≠ []) (whole : ¬ SplitsPair (firstTerminator behind) rest) (position : Nat) :
    netlist.openEnds position (physicalLines ('\\' :: blanks ++ firstTerminator behind ++ rest)) =
      netlist.openEnds (position + byteSize ('\\' :: blanks ++ firstTerminator behind)) (physicalLines rest) := by
  have inside : ∀ x ∈ '\\' :: blanks, isLineBreak x = false := by
    rintro x (_ | ⟨_, member⟩)
    · rfl
    · exact not_isLineBreak_of_isBlank (blank x member)
  have marked : netlist.continuesCurrent ('\\' :: blanks) = true := by
    have blank' : ∀ x ∈ blanks.reverse, isBlank x = true := fun x member => blank x (List.mem_reverse.mp member)
    have kept : ('\\' :: blanks).reverse.dropWhile isBlank = ['\\'] := by
      rw [List.reverse_cons, List.dropWhile_append_of_pos blank']
      rfl
    have same : dropEndWhile isBlank ('\\' :: blanks) = ['\\'] := by rw [dropEndWhile, kept, List.reverse_singleton]
    simp only [continuesCurrent, netlist, same]
    rfl
  have same := firstTerminator_append broken whole
  have lines := physicalLines_terminator (t := firstTerminator behind ++ rest) (by rw [same]; exact broken) (by rw [same])
  rw [List.append_assoc, physicalLines_inside_append inside, lines, same]
  simp [openEnds, marked, PhysicalLine.whole]

open Continuation in
/-- A next-line marker joins its line to the one before it. -/
theorem openEnds_nextLineMarker {t blanks rest : Text} (blank : ∀ x ∈ blanks, isBlank x = true)
    (broken : firstTerminator t ≠ []) (position : Nat) :
    netlist.openEnds position (physicalLines (firstTerminator t ++ blanks ++ ['+'] ++ rest)) =
      netlist.openEnds (position + byteSize (firstTerminator t ++ blanks ++ ['+'])) (physicalLines rest) := by
  have inside : ∀ x ∈ blanks ++ ['+'], isLineBreak x = false := by
    intro x member
    rcases List.mem_append.mp member with here | last
    · exact not_isLineBreak_of_isBlank (blank x here)
    · obtain rfl := List.mem_singleton.mp last
      rfl
  have nonempty : blanks ++ ['+'] ++ rest ≠ [] := by simp
  have whole : ¬ SplitsPair (firstTerminator t) (blanks ++ ['+'] ++ rest) := by
    rintro ⟨_, feed⟩
    have first : (blanks ++ ['+']).head? = some '\n' := by
      rw [List.head?_append] at feed
      simpa using feed
    have outside := inside '\n' (List.mem_of_mem_head? first)
    cases outside
  have same := firstTerminator_append broken whole
  have lines := physicalLines_terminator (t := firstTerminator t ++ (blanks ++ ['+'] ++ rest)) (by rw [same]; exact broken)
    (by rw [same])
  have content : (firstLine (blanks ++ ['+'] ++ rest)).content = blanks ++ '+' :: rest.takeWhile (!isLineBreak ·) := by
    have inside' : ∀ x ∈ blanks ++ ['+'], (!isLineBreak x) = true := fun x member => by simp [inside x member]
    have kept : ((blanks ++ ['+']) ++ rest).takeWhile (!isLineBreak ·) = _ := List.takeWhile_append_of_pos inside'
    exact kept.trans (by simp)
  have joined : netlist.joins ⟨[], firstTerminator t⟩ (firstLine (blanks ++ ['+'] ++ rest)) = true := by
    have marked : (firstLine (blanks ++ ['+'] ++ rest)).content.dropWhile isBlank = '+' :: rest.takeWhile (!isLineBreak ·) := by
      rw [content, List.dropWhile_append_of_pos blank]
      rfl
    simp only [joins, continuesPrevious, netlist, marked, Bool.or_eq_true]
    exact .inr rfl
  have solid : netlist.continuesCurrent (blanks ++ ['+']) = false :=
    continuesCurrent_last (x := '+') (by simp) rfl (by decide)
  have tail := openEnds_inside inside solid (position + byteSize (firstTerminator t)) rest
  have text : firstTerminator t ++ blanks ++ ['+'] ++ rest = firstTerminator t ++ (blanks ++ ['+'] ++ rest) := by simp
  have size : byteSize (firstTerminator t ++ blanks ++ ['+']) = byteSize (firstTerminator t) + byteSize (blanks ++ ['+']) := by
    simp
  rw [physicalLines_eq_firstLine nonempty] at tail
  rw [text, lines, same, physicalLines_eq_firstLine nonempty, openEnds_cons_joined _ joined, size, ← Nat.add_assoc, ← tail]
  rfl

theorem exists_nextLine_rule (o : Options) : ∃ r ∈ (grammar o).rules, r.top = true ∧
    r.recognizer = .pattern nextLineMarker.atStart ∧ ∀ s, r.applies s = true := by
  have inside : separators ⊆ (grammar o).rules := by
    simp only [grammar, List.append_assoc]
    exact List.subset_append_left _ _
  exact ⟨separators[1], inside (List.getElem_mem _), rfl, rfl, fun _ => rfl⟩

theorem head?_dropWhile_append {p : Char → Bool} {content rest : Text} {x : Char}
    (first : (content.dropWhile p).head? = some x) : ((content ++ rest).dropWhile p).head? = some x := by
  obtain ⟨more, eq⟩ := List.head?_eq_some_iff.mp first
  rw [List.dropWhile_append, eq]
  rfl

open Continuation in
/-- A marker behind the first line break of a window lies in the window. -/
theorem marker_inside {view seen more : Text} (split : view = firstTerminator view ++ seen) (broken : firstTerminator view ≠ [])
    (seam : more ≠ [] → netlist.Seam view more)
    (marked : netlist.continuesPrevious (firstLine (seen ++ more)).content = true) :
    (seen.dropWhile isBlank).head? = some '+' := by
  by_cases all : seen = []
  · -- The window ends with the line break, so the line behind is not joined to it.
    subst all
    by_cases last : more = []
    · rw [last] at marked
      cases marked
    · have lines := physicalLines_terminator broken split
      have parts := (seam last).parts ⟨[], _⟩ (by rw [lines]; rfl)
      rw [List.nil_append] at marked
      rw [joins, marked, Bool.or_true] at parts
      cases parts
  · have same : firstLine (seen ++ more) = firstLine seen := by
      by_cases last : more = []
      · rw [last, List.append_nil]
      · have seam := seam last
        rw [split] at seam
        exact firstLine_append (seam.suffix all).line
    rw [same] at marked
    have first : ((firstLine seen).content.dropWhile isBlank).head? = some '+' := by
      simpa [continuesPrevious, netlist] using marked
    have whole : ((seen.takeWhile (!isLineBreak ·) ++ seen.dropWhile (!isLineBreak ·)).dropWhile isBlank).head? = some '+' :=
      head?_dropWhile_append first
    rwa [List.takeWhile_append_dropWhile] at whole

open Continuation in
/-- A line break that wins is not followed by a marker. -/
theorem Steps.unmarked (steps : Steps o s token s' c) (logical : o.window = .logical) (rest : s.rest = token.raw ++ s'.rest)
    (below : c.rule.top = false) (raw : token.raw = firstTerminator (o.window.view .netlist s.rest))
    (broken : firstTerminator (o.window.view .netlist s.rest) ≠ []) :
    netlist.continuesPrevious (firstLine s'.rest).content = false := by
  rw [Bool.eq_false_iff]
  intro marked
  have wins := steps.wins
  obtain ⟨seen, _, view, _, _⟩ := steps.pieces rest
  rw [logical] at wins view raw broken
  have nonempty : s.rest ≠ [] := by
    intro empty
    rw [empty, raw] at rest
    exact broken (List.append_eq_nil_iff.mp rest.symm).1
  obtain ⟨more, pieces, _, seam⟩ := logical_pieces netlist nonempty
  have behind : s'.rest = seen ++ more := by
    rw [view, List.append_assoc] at pieces
    exact List.append_cancel_left (rest.symm.trans pieces)
  have marker := marker_inside (raw ▸ view) broken seam (behind ▸ marked)
  obtain ⟨r, member, top, recognizer, applies⟩ := exists_nextLine_rule o
  have dropped : (Window.logical.view netlist s.rest).drop (firstTerminator (Window.logical.view netlist s.rest)).length = seen := by
    rw [← raw, view, List.drop_left]
  obtain ⟨e, head⟩ := exists_nextLineMarker_head? (c := .start (Window.logical.view netlist s.rest)) broken
    (by rw [← marker, ← dropped]; rfl)
  obtain ⟨w, _, _, spans⟩ := nextLineMarker_head? head
  have positive : 0 < e.offset := by
    rw [spans.offset, List.length_append, List.length_singleton]
    omega
  obtain ⟨d, found, _⟩ := exists_attempt (s := s.state.beforeMatch) recognizer (applies _) head positive
  have ahead := wins.top member top found
  rw [below] at ahead
  cases ahead

theorem continuesCurrent_blank {w : Text} (blank : ∀ x ∈ w, isBlank x = true) : Continuation.netlist.continuesCurrent w = false := by
  have dropped : w.reverse.dropWhile isBlank = [] := by
    have all : (w.reverse ++ []).dropWhile isBlank = [] :=
      List.dropWhile_append_of_pos fun x member => blank x (List.mem_reverse.mp member)
    rwa [List.append_nil] at all
  simp [Continuation.continuesCurrent, Continuation.netlist, dropEndWhile, dropped]

inductive Lies (r : Rule Kind) (window w : Text) : Prop
  | newline (kind : r.kind = .newline) (below : r.top = false) (raw : w = firstTerminator window)
    (broken : firstTerminator window ≠ [])
  | currentLineMarker (kind : r.kind ≠ .newline) (blanks behind : Text) (blank : ∀ x ∈ blanks, isBlank x = true)
    (raw : w = '\\' :: blanks ++ firstTerminator behind) (broken : firstTerminator behind ≠ [])
  | nextLineMarker (kind : r.kind ≠ .newline) (blanks : Text) (blank : ∀ x ∈ blanks, isBlank x = true)
    (raw : w = firstTerminator window ++ blanks ++ ['+']) (broken : firstTerminator window ≠ [])
  | inside (kind : r.kind ≠ .newline) (inside : ∀ x ∈ w, isLineBreak x = false)
    (unmarked : r.kind ≠ .comment → Continuation.netlist.continuesCurrent w = false)
  | solid (kind : r.kind ≠ .newline) (x : Char) (last : w.getLast? = some x) (solid : isSolid x = true)

theorem Takes.lies (title : o.hasTitle = false) (blocks : o.blockComments = false) (member : r ∈ (grammar o).rules)
    (takes : Takes r window w) (nonempty : w ≠ []) : Lies r window w := by
  have fits := all_rules rules_fitLines member
  obtain ⟨_, starts, ends, contents⟩ := kind_of_bare title blocks member
  cases takes with
  | group opening closing recognizer closes last =>
    have other : r.kind ≠ .newline := by simpa [fitsLines, recognizer] using fits
    exact .solid other closing last (by rcases closes with rfl | rfl <;> rfl)
  | pattern p e recognizer head spans taken =>
    simp only [fitsLines, recognizer] at fits
    split at fits
    · next same => cases same
    · next q same kind =>
      cases same
      simp only [Bool.and_eq_true, beq_iff_eq, Bool.not_eq_true'] at fits
      obtain ⟨same, below⟩ := fits
      obtain rfl : p = lineBreak := (Pattern.seq.inj same).2
      obtain ⟨spans', broken⟩ := lineBreak_head? head
      exact .newline kind below (spans.unique spans') broken
    · next q same kind =>
      cases same
      have other : r.kind ≠ .newline := by simp [kind]
      simp only [Bool.or_eq_true, beq_iff_eq] at fits
      rcases fits with same | same
      · obtain rfl : p = currentLineMarker := (Pattern.seq.inj same).2
        obtain ⟨blanks, behind, _, blank, broken, spans'⟩ := currentLineMarker_head? head
        exact .currentLineMarker other blanks behind blank (spans.unique spans') broken
      · obtain rfl : p = nextLineMarker := (Pattern.seq.inj same).2
        obtain ⟨blanks, blank, broken, spans'⟩ := nextLineMarker_head? head
        exact .nextLineMarker other blanks blank (spans.unique spans') broken
    · next q same kind =>
      cases same
      obtain rfl : p = someBlanks := (Pattern.seq.inj (beq_iff_eq.mp fits)).2
      have blank := blanks_inside (w := w) ⟨taken.inside, fun _ => rfl, taken.last⟩
      exact .inside (by simp [kind]) (fun x member => not_isLineBreak_of_isBlank (blank x member)) fun _ => continuesCurrent_blank blank
    · next q same kind =>
      cases same
      have unused : p.uses '\n' = false ∧ p.uses '\r' = false := by simpa [Pattern.atStart, Pattern.uses] using fits
      exact .inside (by simp [kind]) (taken.inside_line unused.1 unused.2) fun other => absurd kind other
    · next kind => exact absurd kind ‹r.kind ≠ .title›
    · next kind => exact absurd kind starts
    · next kind => exact absurd kind ends
    · next kind => exact absurd kind contents
    · next q same other _ _ _ _ _ _ _ =>
      cases same
      have last := List.getLast?_eq_some_getLast nonempty
      refine .solid other _ last ?_
      have ends := taken.last _ last
      have never := List.all_eq_true.mp fits
      have differs (y : Char) (listed : y ∈ ['\n', '\r', ' ', '\t', '\\']) : w.getLast nonempty ≠ y := by
        rintro same
        have other := never y listed
        simp [Pattern.atStart, Pattern.endsWith, ← same, ends] at other
      simp [isSolid, isLineBreak, isBlank, differs]

open Continuation in
/-- The logical lines that end in what is left: one where a step makes a line break, and otherwise those
that end behind it. -/
theorem step_openEnds (logical : o.window = .logical) (title : o.hasTitle = false) (blocks : o.blockComments = false)
    (step : (lexer o file keep).step s = .ok (token, s'))
    (quiet : token.kind = .comment → netlist.continuesCurrent token.raw = false) :
    netlist.openEnds s.position (physicalLines s.rest) =
      (if token.kind = .newline then [(token.start, token.stop)] else []) ++
        netlist.openEnds s'.position (physicalLines s'.rest) := by
  obtain ⟨c, steps⟩ := step_spec step
  have consumes := step_consumes (grammar_bounded o) step
  have whole := steps.whole consumes.rest
  obtain ⟨seen, _, view, _, _⟩ := steps.pieces consumes.rest
  have position : s'.position = s.position + byteSize token.raw := by
    rw [consumes.position, consumes.stop, consumes.start]
  obtain ⟨_, _, takes⟩ := attempt_takes steps.wins.mem steps.wins.found
  rw [← steps.raw] at takes
  rw [steps.kind] at quiet ⊢
  cases takes.lies title blocks steps.wins.mem consumes.raw with
  | newline kind below raw broken =>
    have unmarked := steps.unmarked logical consumes.rest below raw broken
    rw [raw] at whole
    have same := firstTerminator_append broken whole
    have text : s.rest = firstTerminator s.rest ++ s'.rest := by rw [consumes.rest, raw, same]
    have lines := physicalLines_terminator (by rw [consumes.rest, raw, same]; exact broken) text
    have first : firstTerminator s.rest = token.raw := by rw [consumes.rest, raw, same]
    have parts (next : PhysicalLine) (head : (physicalLines s'.rest).head? = some next) :
        netlist.joins ⟨[], token.raw⟩ next = false := by
      have more : s'.rest ≠ [] := by
        intro empty
        rw [empty] at head
        cases head
      rw [physicalLines_eq_firstLine more] at head
      obtain rfl := Option.some.inj head
      rw [joins, unmarked]
      rfl
    rw [lines, first, openEnds_parts _ parts, if_pos kind, if_neg (by simp [consumes.raw]; rfl), position, consumes.stop,
      consumes.start]
    simp [PhysicalLine.whole]
  | currentLineMarker other blanks behind blank raw broken =>
    rw [if_neg other, List.nil_append, position, consumes.rest]
    rw [raw] at whole ⊢
    rw [SplitsPair, getLast?_behind _ broken] at whole
    exact openEnds_currentLineMarker blank broken whole _
  | nextLineMarker other blanks blank raw broken =>
    rw [if_neg other, List.nil_append, position, consumes.rest, raw]
    exact openEnds_nextLineMarker blank broken _
  | inside other inside unmarked =>
    rw [if_neg other, List.nil_append, position, consumes.rest]
    refine openEnds_inside inside ?_ _ _
    by_cases comment : c.rule.kind = .comment
    · exact quiet comment
    · exact unmarked comment
  | solid other x last solid =>
    simp only [isSolid, Bool.and_eq_true, Bool.not_eq_true', bne_iff_ne, ne_eq] at solid
    rw [if_neg other, List.nil_append, position]
    rw [logical] at view
    exact openEnds_view view consumes.rest last solid.1.1 solid.1.2 (by simp [netlist, Ne.symm solid.2]) _

def lineBreakSpans (tokens : List (Token Kind)) : List (Nat × Nat) :=
  (tokens.filter fun token => token.kind == .newline && !token.suppressed).map fun token => (token.start, token.stop)

/-- The line breaks of a run are the ends of logical lines in what it consumes. -/
theorem Matched.openEnds (logical : o.window = .logical) (title : o.hasTitle = false) (blocks : o.blockComments = false)
    (run : Matched (lexer o file keep) s tokens s') (outside : s.state.inCommentBlock = false)
    (quiet : ∀ token ∈ tokens, token.kind = .comment → Continuation.netlist.continuesCurrent token.raw = false) :
    Continuation.netlist.openEnds s.position (physicalLines s.rest) =
      lineBreakSpans tokens ++ Continuation.netlist.openEnds s'.position (physicalLines s'.rest) := by
  induction run with
  | none s => rfl
  | @more s s' s'' token tokens _ step _ ih =>
    obtain ⟨c, steps⟩ := step_spec step
    obtain ⟨_, starts, ends, _⟩ := kind_of_bare title blocks steps.wins.mem
    rw [← steps.kind] at starts ends
    have shown := steps.suppressed
    have still := steps.inCommentBlock
    rw [outside] at shown still
    have after_kind : blockAfter token.kind false = false := by
      cases kind : token.kind <;> first | rfl | exact absurd kind starts
    have behind := ih (still.trans after_kind) fun token member => quiet token (List.mem_cons_of_mem _ member)
    rw [step_openEnds logical title blocks step (quiet _ List.mem_cons_self), behind, ← List.append_assoc]
    congr 1
    by_cases newline : token.kind = .newline
    · simp [lineBreakSpans, newline, shown, emission]
    · simp [lineBreakSpans, newline]

/-- The line breaks that are emitted end the logical lines. This is said of the logical window, without
title and block comments, for a text whose comments do not end with the current-line marker; the end of
a last line that ends with that marker belongs to the marker. -/
theorem lineBreaks_end_logicalLines (o : Options) (logical : o.window = .logical) (title : o.hasTitle = false)
    (blocks : o.blockComments = false) (file : Option Text) (keepSuppressed : Bool) (t : Text) {tokens : List (Token Kind)}
    (ok : (lexer o file keepSuppressed).tokenize { rest := t } = .ok tokens)
    (quiet : ∀ token, .token token ∈ (lexer o file true).items { rest := t } → token.kind = .comment →
      Continuation.netlist.continuesCurrent token.raw = false) :
    lineBreakSpans tokens =
      ((logicalLines .netlist t).filter fun line => !Continuation.netlist.continuesCurrent (line.last t).content).filterMap
        (·.terminator? t) := by
  obtain ⟨matched, s, ending, run, ended⟩ := exists_matched (lexer o file keepSuppressed) { rest := t }
  obtain ⟨empty, rfl⟩ := matched_of_tokenize rfl run ended ok
  have emitted : lineBreakSpans (matched.filter (lexer o file keepSuppressed).shows ++ [(lexer o file keepSuppressed).endToken s]) =
      lineBreakSpans matched := by
    have last : (lexer o file keepSuppressed).grammar.eof = .eof := rfl
    have same : ∀ token : Token Kind, (token.kind == .newline && !token.suppressed &&
        (!token.suppressed || (lexer o file keepSuppressed).options.keepSuppressed)) =
        (token.kind == .newline && !token.suppressed) := by
      intro token
      cases token.suppressed <;> simp
    simp [lineBreakSpans, endToken, shows, List.filter_append, List.filter_filter, same, last]
  have quiet' (token : Token Kind) (member : token ∈ matched) (comment : token.kind = .comment) :
      Continuation.netlist.continuesCurrent token.raw = false := by
    refine quiet token ?_ comment
    have ended' : Ending (lexer o file true) s ending := Ending.shown ended
    have every : matched.filter (lexer o file true).shows = matched := by
      refine List.filter_eq_self.mpr fun token _ => ?_
      exact Bool.or_true _
    have shown : Matched (lexer o file true) { rest := t } matched s := run.showing true
    rw [shown.items_eq rfl ended', every]
    exact List.mem_append_left _ (List.mem_map_of_mem member)
  have all := Matched.openEnds logical title blocks run rfl quiet'
  rw [emitted, Continuation.openEnds_logicalLines, all, empty]
  simp [physicalLines, Continuation.openEnds]

/-- A continued line with a comment, a line behind it and one that is not ended. -/
theorem lineBreaks_end_logicalLines_comment :
    ∃ tokens, (lexer { blockComments := false } none false).tokenize { rest := chars "a $c\n+ b\r\nc\\\n\nd" } = .ok tokens ∧
      lineBreakSpans tokens = [(8, 10), (13, 14)] := by
  have ok : ((lexer { blockComments := false } none false).tokenize { rest := chars "a $c\n+ b\r\nc\\\n\nd" }).isOk = true := by
    decide +kernel
  have quiet : ((lexer { blockComments := false } none true).items { rest := chars "a $c\n+ b\r\nc\\\n\nd" }).all
      (fun item => item.casesOn
        (fun token => !(token.kind == .comment && Continuation.netlist.continuesCurrent token.raw)) fun _ => true) = true := by
    decide +kernel
  cases eq : (lexer { blockComments := false } none false).tokenize { rest := chars "a $c\n+ b\r\nc\\\n\nd" } with
  | error f =>
    rw [eq] at ok
    cases ok
  | ok tokens =>
    refine ⟨tokens, rfl, (lineBreaks_end_logicalLines { blockComments := false } rfl rfl rfl none false _ eq ?_).trans (by decide +kernel)⟩
    intro token member comment
    have own := List.all_eq_true.mp quiet _ member
    simpa [comment] using own

/-- A marker that a comment takes joins no lines for the lexer, and the line break that belongs to a marker
at the end of the text is not emitted. -/
theorem lineBreaks_ne_terminators :
    (((lexer { blockComments := false } none false).tokenize { rest := chars "*\\\na" }).toOption.map lineBreakSpans ≠
      some ((logicalLines .netlist (chars "*\\\na")).filterMap (·.terminator? (chars "*\\\na")))) ∧
    ((lexer { blockComments := false } none false).tokenize { rest := chars "a \\\n" }).toOption.map lineBreakSpans ≠
      some ((logicalLines .netlist (chars "a \\\n")).filterMap (·.terminator? (chars "a \\\n"))) := by
  decide +kernel

end Netlist.Spice
