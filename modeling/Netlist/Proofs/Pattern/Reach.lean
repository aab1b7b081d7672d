import Netlist.Pattern.Build
import Netlist.Pattern.Search

/-!
Which places a pattern leads to. `Reaches` says it without order of preference, and the ends that are
listed are reached in this sense. What lies between two places is a piece of the text; which characters
it may hold, and which ones may stand at its start and at its end, is read off the pattern.
-/
namespace Netlist

namespace Cursor

theorem mem_merge {first second : List Cursor} {e : Cursor} (member : e ∈ merge first second) : e ∈ first ∨ e ∈ second := by
  rcases List.mem_append.mp member with left | right
  · exact .inl left
  · exact .inr (List.mem_filter.mp right).1

theorem mem_collect {f : Cursor → List Cursor} {cs : List Cursor} {e : Cursor} (member : e ∈ collect f cs) :
    ∃ c ∈ cs, e ∈ f c := by
  induction cs with
  | nil => cases member
  | cons c cs ih =>
    rcases mem_merge member with here | later
    · exact ⟨c, List.mem_cons_self, here⟩
    · obtain ⟨d, inside, reached⟩ := ih later
      exact ⟨d, List.mem_cons_of_mem _ inside, reached⟩

inductive Rounds (body : Cursor → Cursor → Prop) : Nat → Cursor → Cursor → Prop
  | none (c : Cursor) : Rounds body 0 c c
  | more {n : Nat} {c d e : Cursor} (first : body c d) (rest : Rounds body n d e) : Rounds body (n + 1) c e

theorem Rounds.trans {body : Cursor → Cursor → Prop} {m n : Nat} {c d e : Cursor} (first : Rounds body m c d)
    (second : Rounds body n d e) : Rounds body (m + n) c e := by
  induction first with
  | none c => simpa using second
  | more step _ ih =>
    have longer := Rounds.more step (ih second)
    rwa [Nat.succ_add_eq_add_succ] at *

structure Spans (w : Text) (c e : Cursor) : Prop where
  rest : c.rest = w ++ e.rest
  offset : e.offset = c.offset + w.length
  before : e.before = w.getLast?.or c.before

theorem Spans.here (c : Cursor) : Spans [] c c := ⟨rfl, rfl, by simp⟩

theorem Spans.unique {v w : Text} {c e : Cursor} (first : Spans v c e) (second : Spans w c e) : v = w :=
  List.append_cancel_right (first.rest.symm.trans second.rest)

theorem Spans.target {w : Text} {c d e : Cursor} (first : Spans w c d) (second : Spans w c e) : d = e := by
  obtain ⟨before, rest, offset⟩ := d
  obtain ⟨before', rest', offset'⟩ := e
  obtain rfl : rest = rest' := List.append_cancel_left (first.rest.symm.trans second.rest)
  obtain rfl : offset = offset' := first.offset.trans second.offset.symm
  obtain rfl : before = before' := first.before.trans second.before.symm
  rfl

theorem Spans.drop {w : Text} {c e : Cursor} (spans : Spans w c e) : c.rest.drop w.length = e.rest := by
  rw [spans.rest, List.drop_left]

theorem Spans.trans {v w : Text} {c d e : Cursor} (first : Spans v c d) (second : Spans w d e) : Spans (v ++ w) c e := by
  refine ⟨by rw [first.rest, second.rest, List.append_assoc], ?_, ?_⟩
  · rw [second.offset, first.offset, List.length_append, Nat.add_assoc]
  · rw [second.before, first.before, List.getLast?_append, Option.or_assoc]

end Cursor

namespace Pattern
open Cursor

/-- Whether a match of a pattern leads from one place to another, whatever is preferred to it. -/
def Reaches : Pattern → Cursor → Cursor → Prop
  | empty, c, e => e = c
  | set s, c, e => ∃ x rest, c.rest = x :: rest ∧ s.contains x = true ∧ e = ⟨some x, rest, c.offset + 1⟩
  | assertion a, c, e => a.holds c = true ∧ e = c
  | seq first second, c, e => ∃ d, first.Reaches c d ∧ second.Reaches d e
  | alt left right, c, e => left.Reaches c e ∨ right.Reaches c e
  | loop body least most _, c, e => ∃ n, least ≤ n ∧ (∀ m ∈ most, n ≤ max least m) ∧ Rounds body.Reaches n c e

theorem mem_prefer {greedy : Bool} {more fewer : List Cursor} {e : Cursor} (member : e ∈ prefer greedy more fewer) :
    e ∈ more ∨ e ∈ fewer := by
  cases greedy with
  | true => exact mem_merge member
  | false => exact (mem_merge member).symm

section Loops
variable {body : Cursor → List Cursor} {R : Cursor → Cursor → Prop} (sound : ∀ c, ∀ e ∈ body c, R c e)
include sound

theorem mem_times {n : Nat} {c e : Cursor} (member : e ∈ times body n c) : Rounds R n c e := by
  induction n generalizing c with
  | zero => rcases List.mem_singleton.mp member with rfl; exact .none e
  | succ n ih =>
    obtain ⟨d, first, later⟩ := mem_collect member
    exact .more (sound c d first) (ih later)

theorem mem_atMost {greedy : Bool} {n : Nat} {c e : Cursor} (member : e ∈ atMost body greedy n c) :
    ∃ m, m ≤ n ∧ Rounds R m c e := by
  induction n generalizing c with
  | zero => rcases List.mem_singleton.mp member with rfl; exact ⟨0, Nat.le_refl _, .none e⟩
  | succ n ih =>
    rcases mem_prefer member with more | here
    · obtain ⟨d, first, later⟩ := mem_collect more
      obtain ⟨m, few, rounds⟩ := ih later
      exact ⟨m + 1, Nat.succ_le_succ few, .more (sound c d first) rounds⟩
    · rcases List.mem_singleton.mp here with rfl
      exact ⟨0, Nat.zero_le _, .none e⟩

theorem mem_rounds {greedy : Bool} {fuel : Nat} {c e : Cursor} {found : List Cursor}
    (member : e ∈ rounds body greedy fuel c found) : e ∈ found ∨ ∃ n, Rounds R n c e := by
  induction fuel generalizing c e found with
  | zero =>
    unfold rounds at member
    split at member
    · exact .inl member
    · rcases List.mem_cons.mp member with rfl | later
      · exact .inr ⟨0, .none e⟩
      · exact .inl later
  | succ fuel ih =>
    -- Rounds that go on behind one of the given places have begun with the round that leads there.
    have onward {es : List Cursor} (inside : ∀ d ∈ es, R c d) {found : List Cursor}
        (member : e ∈ es.foldl (fun found d => rounds body greedy fuel d found) found) :
        e ∈ found ∨ ∃ n, Rounds R n c e := by
      induction es generalizing found with
      | nil => exact .inl member
      | cons d es rest =>
        rcases rest (fun d later => inside d (List.mem_cons_of_mem _ later)) member with here | later
        · rcases ih here with old | ⟨n, more⟩
          · exact .inl old
          · exact .inr ⟨n + 1, .more (inside d List.mem_cons_self) more⟩
        · exact .inr later
    have moves : ∀ d ∈ (body c).filter (decide <| c.offset < ·.offset), R c d :=
      fun d member => sound c d (List.mem_filter.mp member).1
    unfold rounds at member
    split at member
    · exact .inl member
    · dsimp only at member
      split at member
      · rcases List.mem_cons.mp member with rfl | later
        · exact .inr ⟨0, .none e⟩
        · exact onward moves later
      · rcases onward moves member with here | later
        · rcases List.mem_cons.mp here with rfl | old
          · exact .inr ⟨0, .none e⟩
          · exact .inl old
        · exact .inr later

theorem mem_atLeastOnce {greedy : Bool} {c e : Cursor} (member : e ∈ atLeastOnce body greedy c) :
    ∃ n, 1 ≤ n ∧ Rounds R n c e := by
  obtain ⟨d, first, later⟩ := mem_collect member
  have step := sound c d first
  split at later
  · rcases mem_rounds sound (List.mem_reverse.mp later) with nothing | ⟨n, rounds⟩
    · cases nothing
    · exact ⟨n + 1, Nat.succ_pos n, .more step rounds⟩
  · rcases List.mem_singleton.mp later with rfl
    exact ⟨1, Nat.le_refl _, .more step (.none e)⟩

theorem mem_repetition {greedy : Bool} {least : Nat} {most : Option Nat} {c e : Cursor}
    (member : e ∈ repetition body greedy least most c) :
    ∃ n, least ≤ n ∧ (∀ m ∈ most, n ≤ max least m) ∧ Rounds R n c e := by
  cases most with
  | none =>
    cases least with
    | zero =>
      rcases mem_prefer member with more | here
      · obtain ⟨n, _, rounds⟩ := mem_atLeastOnce sound more
        exact ⟨n, Nat.zero_le _, by simp, rounds⟩
      · rcases List.mem_singleton.mp here with rfl
        exact ⟨0, Nat.le_refl _, by simp, .none e⟩
    | succ least =>
      obtain ⟨d, first, later⟩ := mem_collect member
      obtain ⟨n, positive, rounds⟩ := mem_atLeastOnce sound later
      exact ⟨least + n, by omega, by simp, (mem_times sound first).trans rounds⟩
  | some m =>
    have bounded : e ∈ collect (atMost body greedy (m - least)) (times body least c) := by
      cases least <;> exact member
    obtain ⟨d, first, later⟩ := mem_collect bounded
    obtain ⟨n, few, rounds⟩ := mem_atMost sound later
    refine ⟨least + n, Nat.le_add_right _ _, fun k same => ?_, (mem_times sound first).trans rounds⟩
    obtain rfl := Option.some.inj same
    omega

end Loops

/-- The ends that a pattern lists are ends of its matches. -/
theorem reaches_of_mem_ends {p : Pattern} {c e : Cursor} (member : e ∈ p.ends c) : p.Reaches c e := by
  induction p generalizing c e with
  | empty => exact List.mem_singleton.mp member
  | set s =>
    unfold ends at member
    split at member
    · next x rest eq =>
      split at member
      · next inside => exact ⟨x, rest, eq, inside, List.mem_singleton.mp member⟩
      · cases member
    · cases member
  | assertion a =>
    unfold ends at member
    split at member
    · next holds => exact ⟨holds, List.mem_singleton.mp member⟩
    · cases member
  | seq first second ih ih' =>
    obtain ⟨d, before, behind⟩ := mem_collect member
    exact ⟨d, ih before, ih' behind⟩
  | alt left right ih ih' => exact (mem_merge member).imp ih ih'
  | loop body least most greedy ih => exact mem_repetition (fun c e (inside : e ∈ body.ends c) => ih inside) member

/-! ### What a match holds -/

def uses (x : Char) : Pattern → Bool
  | empty => false
  | set s => s.contains x
  | assertion _ => false
  | seq first second => first.uses x || second.uses x
  | alt left right => left.uses x || right.uses x
  | loop body _ _ _ => body.uses x

theorem uses_ignoringCase {p : Pattern} {x : Char} (used : p.ignoringCase.uses x = true) :
    ∃ c ∈ letterForms x, p.uses c = true := by
  induction p with
  | empty | assertion => cases used
  | set s => exact List.any_eq_true.mp used
  | seq first second ih ih' =>
    rcases Bool.or_eq_true_iff.mp used with here | there
    · obtain ⟨c, form, used⟩ := ih here
      exact ⟨c, form, Bool.or_eq_true_iff.mpr (.inl used)⟩
    · obtain ⟨c, form, used⟩ := ih' there
      exact ⟨c, form, Bool.or_eq_true_iff.mpr (.inr used)⟩
  | alt left right ih ih' =>
    rcases Bool.or_eq_true_iff.mp used with here | there
    · obtain ⟨c, form, used⟩ := ih here
      exact ⟨c, form, Bool.or_eq_true_iff.mpr (.inl used)⟩
    · obtain ⟨c, form, used⟩ := ih' there
      exact ⟨c, form, Bool.or_eq_true_iff.mpr (.inr used)⟩
  | loop body least most greedy ih => exact ih used

def nullable : Pattern → Bool
  | empty => true
  | set _ => false
  | assertion _ => true
  | seq first second => first.nullable && second.nullable
  | alt left right => left.nullable || right.nullable
  | loop body least _ _ => least == 0 || body.nullable

def endsWith (x : Char) : Pattern → Bool
  | empty => false
  | set s => s.contains x
  | assertion _ => false
  | seq first second => second.endsWith x || (second.nullable && first.endsWith x)
  | alt left right => left.endsWith x || right.endsWith x
  | loop body _ _ _ => body.endsWith x

structure Consumes (p : Pattern) (w : Text) : Prop where
  inside : ∀ x ∈ w, p.uses x = true
  nullable : w = [] → p.nullable = true
  last : ∀ x, w.getLast? = some x → p.endsWith x = true

theorem Consumes.append {first second : Pattern} {v w : Text} (left : first.Consumes v) (right : second.Consumes w) :
    (seq first second).Consumes (v ++ w) where
  inside x member := by
    rcases List.mem_append.mp member with here | there
    · simp [uses, left.inside x here]
    · simp [uses, right.inside x there]
  nullable empty := by
    obtain ⟨rfl, rfl⟩ := List.append_eq_nil_iff.mp empty
    simp [Pattern.nullable, left.nullable rfl, right.nullable rfl]
  last x found := by
    rw [List.getLast?_append] at found
    rcases Option.or_eq_some_iff.mp found with there | ⟨empty, here⟩
    · simp [endsWith, right.last x there]
    · simp [endsWith, left.last x here, right.nullable (List.getLast?_eq_none_iff.mp empty)]

theorem consumes_rounds {body : Pattern} (sound : ∀ {c e : Cursor}, body.Reaches c e → ∃ w, Spans w c e ∧ body.Consumes w)
    {n : Nat} {c e : Cursor} (rounds : Rounds body.Reaches n c e) :
    ∃ w, Spans w c e ∧ (∀ x ∈ w, body.uses x = true) ∧ (w = [] → n = 0 ∨ body.nullable = true) ∧
      ∀ x, w.getLast? = some x → body.endsWith x = true := by
  induction rounds with
  | none c => exact ⟨[], .here c, by simp, by simp, by simp⟩
  | more first _ ih =>
    obtain ⟨v, spans, consumes⟩ := sound first
    obtain ⟨w, spans', inside, nullable, last⟩ := ih
    refine ⟨v ++ w, spans.trans spans', ?_, ?_, ?_⟩
    · intro x member
      exact (List.mem_append.mp member).elim (consumes.inside x) (inside x)
    · intro empty
      exact .inr (consumes.nullable (List.append_eq_nil_iff.mp empty).1)
    · intro x found
      rw [List.getLast?_append] at found
      rcases Option.or_eq_some_iff.mp found with there | ⟨_, here⟩
      · exact last x there
      · exact consumes.last x here

/-- Between the ends of a match lies text that the pattern may consume. -/
theorem Reaches.consumes {p : Pattern} {c e : Cursor} (reached : p.Reaches c e) : ∃ w, Spans w c e ∧ p.Consumes w := by
  induction p generalizing c e with
  | empty =>
    rcases reached with rfl
    exact ⟨[], .here e, by simp, fun _ => rfl, by simp⟩
  | set s =>
    obtain ⟨x, rest, eq, inside, rfl⟩ := reached
    refine ⟨[x], ⟨eq, rfl, rfl⟩, ?_, by simp, ?_⟩
    · simpa [uses] using inside
    · intro y found
      obtain rfl := Option.some.inj found
      exact inside
  | assertion a =>
    obtain ⟨_, rfl⟩ := reached
    exact ⟨[], .here e, by simp, fun _ => rfl, by simp⟩
  | seq first second ih ih' =>
    obtain ⟨d, before, behind⟩ := reached
    obtain ⟨v, spans, consumes⟩ := ih before
    obtain ⟨w, spans', consumes'⟩ := ih' behind
    exact ⟨v ++ w, spans.trans spans', consumes.append consumes'⟩
  | alt left right ih ih' =>
    rcases reached with here | there
    · obtain ⟨w, spans, consumes⟩ := ih here
      refine ⟨w, spans, fun x member => ?_, fun empty => ?_, fun x found => ?_⟩
      · simp [uses, consumes.inside x member]
      · simp [Pattern.nullable, consumes.nullable empty]
      · simp [endsWith, consumes.last x found]
    · obtain ⟨w, spans, consumes⟩ := ih' there
      refine ⟨w, spans, fun x member => ?_, fun empty => ?_, fun x found => ?_⟩
      · simp [uses, consumes.inside x member]
      · simp [Pattern.nullable, consumes.nullable empty]
      · simp [endsWith, consumes.last x found]
  | loop body least most greedy ih =>
    obtain ⟨n, enough, _, rounds⟩ := reached
    obtain ⟨w, spans, inside, empty, last⟩ := consumes_rounds ih rounds
    refine ⟨w, spans, inside, fun nothing => ?_, last⟩
    rcases empty nothing with zero | nullable
    · simp [Pattern.nullable, Nat.le_zero.mp (zero ▸ enough)]
    · simp [Pattern.nullable, nullable]

/-! ### How a match begins -/

def beginsWith (x : Char) : Pattern → Bool
  | empty => false
  | set s => s.contains x
  | assertion _ => false
  | seq first second => first.beginsWith x || (first.nullable && second.beginsWith x)
  | alt left right => left.beginsWith x || right.beginsWith x
  | loop body _ _ _ => body.beginsWith x

theorem begins_rounds {body : Pattern} {x : Char}
    (sound : ∀ {c e : Cursor} {w : Text}, body.Reaches c e → Spans w c e → w.head? = some x → body.beginsWith x = true)
    {n : Nat} {c e : Cursor} {w : Text} (rounds : Rounds body.Reaches n c e) (spans : Spans w c e)
    (first : w.head? = some x) : body.beginsWith x = true := by
  induction rounds generalizing w with
  | none c =>
    obtain rfl := spans.unique (.here c)
    cases first
  | more step rest ih =>
    obtain ⟨v, before, _⟩ := step.consumes
    obtain ⟨u, behind, _⟩ := consumes_rounds (fun reached => reached.consumes) rest
    obtain rfl := spans.unique (before.trans behind)
    cases v with
    | nil => exact ih behind first
    | cons y v => exact sound step before first

theorem Reaches.begins {p : Pattern} {c e : Cursor} {w : Text} {x : Char} (reached : p.Reaches c e) (spans : Spans w c e)
    (first : w.head? = some x) : p.beginsWith x = true := by
  induction p generalizing c e w with
  | empty =>
    rcases reached with rfl
    obtain rfl := spans.unique (.here e)
    cases first
  | set s =>
    obtain ⟨y, rest, eq, inside, rfl⟩ := reached
    obtain rfl : w = [y] := spans.unique ⟨eq, rfl, rfl⟩
    obtain rfl := Option.some.inj first
    exact inside
  | assertion a =>
    obtain ⟨_, rfl⟩ := reached
    obtain rfl := spans.unique (.here e)
    cases first
  | seq front back ih ih' =>
    obtain ⟨d, before, behind⟩ := reached
    obtain ⟨v, spans₁, consumes⟩ := before.consumes
    obtain ⟨u, spans₂, _⟩ := behind.consumes
    obtain rfl := spans.unique (spans₁.trans spans₂)
    cases v with
    | nil => simp [beginsWith, consumes.nullable rfl, ih' behind spans₂ first]
    | cons y v => simp [beginsWith, ih before spans₁ first]
  | alt left right ih ih' =>
    rcases reached with here | there
    · simp [beginsWith, ih here spans first]
    · simp [beginsWith, ih' there spans first]
  | loop body least most greedy ih =>
    obtain ⟨n, _, _, rounds⟩ := reached
    have begun : body.beginsWith x = true := begins_rounds ih rounds spans first
    exact begun

/-! ### Matches at the start of a text -/

theorem merge_nil (first : List Cursor) : merge first [] = first := by simp [merge]

theorem findEnd?_atStart (p : Pattern) (t : Text) : p.atStart.findEnd? t = (p.ends (.start t)).head?.map (·.offset) := by
  have anchored : p.atStart.anchored = true := rfl
  have ends : p.atStart.ends (.start t) = p.ends (.start t) := merge_nil _
  rw [findEnd?, if_pos anchored, matchLength?, ends]

theorem exists_of_findEnd?_atStart {p : Pattern} {t : Text} {length : Nat} (found : p.atStart.findEnd? t = some length) :
    ∃ e, (p.ends (.start t)).head? = some e ∧ e.offset = length ∧ Spans (t.take length) (.start t) e ∧
      p.Consumes (t.take length) := by
  rw [findEnd?_atStart] at found
  obtain ⟨e, first, rfl⟩ := Option.map_eq_some_iff.mp found
  obtain ⟨w, spans, consumes⟩ := (reaches_of_mem_ends (List.mem_of_mem_head? first)).consumes
  have offset : e.offset = w.length := by simpa [Cursor.start] using spans.offset
  have text : t = w ++ e.rest := spans.rest
  have taken : t.take e.offset = w := by
    rw [offset]
    exact (congrArg (List.take w.length) text).trans List.take_left
  rw [taken]
  exact ⟨e, first, rfl, spans, consumes⟩

end Pattern

end Netlist
