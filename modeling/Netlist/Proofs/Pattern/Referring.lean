import Mathlib.Data.List.Basic
import Netlist.Pattern.Reference

/-!
Where references stand in the text of a pattern, without the scanner that finds them. The angle
brackets of a reference do not occur in its name, so that references never overlap and a text is
made of its first reference and the text behind it. The pieces of a text follow that division.
-/
namespace Netlist.Pattern

inductive IsName : Text → Prop
  | mk {c : Char} {cs : Text} (start : isNameStart c = true) (parts : ∀ d ∈ cs, isNamePart d = true) : IsName (c :: cs)

def referenceTo (name : Text) : Text := '<' :: (name ++ ['>'])

structure Refers (t front name back : Text) : Prop where
  named : IsName name
  stands : t = front ++ (referenceTo name ++ back)

def Plain (t : Text) : Prop := ∀ front name back, ¬ Refers t front name back

theorem IsName.part {name : Text} (named : IsName name) {c : Char} (mem : c ∈ name) : isNamePart c = true := by
  obtain ⟨start, parts⟩ := named
  rcases List.mem_cons.mp mem with rfl | mem
  · simp [isNamePart, start]
  · exact parts c mem

theorem IsName.open_not_mem {name : Text} (named : IsName name) : '<' ∉ name :=
  fun mem => absurd (named.part mem) (by decide)

theorem IsName.close_not_mem {name : Text} (named : IsName name) : '>' ∉ name :=
  fun mem => absurd (named.part mem) (by decide)

theorem IsName.snoc {name : Text} (named : IsName name) {c : Char} (part : isNamePart c = true) : IsName (name ++ [c]) := by
  obtain ⟨start, parts⟩ := named
  apply IsName.mk start
  intro d mem
  rcases List.mem_append.mp mem with mem | mem
  · exact parts d mem
  · rwa [List.mem_singleton.mp mem]

theorem open_at_start {name before after : Text} (named : IsName name)
    (eq : referenceTo name = before ++ '<' :: after) : before = [] := by
  cases before with
  | nil => rfl
  | cons c before =>
    have inside : '<' ∈ name ++ ['>'] := by
      rw [show name ++ ['>'] = before ++ '<' :: after from (List.cons.inj eq).2]
      simp
    rcases List.mem_append.mp inside with mem | mem
    · exact absurd mem named.open_not_mem
    · simp at mem

/-- Of two references that stand at one place, the names and what follows are the same. -/
theorem referenceTo_append_inj {name name' back back' : Text} (named : IsName name) (named' : IsName name')
    (eq : referenceTo name ++ back = referenceTo name' ++ back') : name = name' ∧ back = back' := by
  have ends : name ++ '>' :: back = name' ++ '>' :: back' := by simpa [referenceTo] using eq
  rcases List.append_eq_append_iff.mp ends with ⟨mid, rfl, rest⟩ | ⟨mid, rfl, rest⟩
  · cases mid with
    | nil => exact ⟨by simp, by simpa using rest⟩
    | cons c mid =>
      obtain rfl : '>' = c := (List.cons.inj rest).1
      exact absurd (by simp) named'.close_not_mem
  · cases mid with
    | nil => exact ⟨by simp, by simpa using rest.symm⟩
    | cons c mid =>
      obtain rfl : '>' = c := (List.cons.inj rest).1
      exact absurd (by simp) named.close_not_mem

namespace Refers

variable {t front name back : Text}

theorem prepend (refers : Refers t front name back) (before : Text) : Refers (before ++ t) (before ++ front) name back :=
  ⟨refers.named, by rw [refers.stands, List.append_assoc]⟩

theorem append (refers : Refers t front name back) (after : Text) : Refers (t ++ after) front name (back ++ after) :=
  ⟨refers.named, by simp [refers.stands]⟩

end Refers

theorem Plain.right {a b : Text} (plain : Plain (a ++ b)) : Plain b := fun _ _ _ refers => plain _ _ _ (refers.prepend a)

theorem plain_nil : Plain [] := fun _ _ _ refers => by simpa [referenceTo] using refers.stands

/-- Across a character that is neither an angle bracket nor part of a name there is no reference. -/
theorem Plain.append_cons {a b : Text} {c : Char} (plainA : Plain a) (plainB : Plain b)
    (noOpen : c ≠ '<') (noClose : c ≠ '>') (noPart : isNamePart c = false) : Plain (a ++ c :: b) := by
  intro front name back refers
  rcases List.append_eq_append_iff.mp refers.stands with ⟨mid, rfl, rest⟩ | ⟨mid, rfl, rest⟩
  · cases mid with
    | nil => exact noOpen (List.cons.inj rest).1
    | cons d mid =>
      refine plainB mid name back ⟨refers.named, ?_⟩
      exact (List.cons.inj rest).2
  · -- The reference starts before the character, and ends before it too, since it cannot hold it.
    rcases List.append_eq_append_iff.mp rest with ⟨rest', eq, _⟩ | ⟨rest', eq, follows⟩
    · exact plainA front name rest' ⟨refers.named, by simp [eq]⟩
    · cases rest' with
      | nil => exact plainA front name [] ⟨refers.named, by simp [eq]⟩
      | cons d rest' =>
        obtain rfl : c = d := (List.cons.inj follows).1
        have mem : c ∈ referenceTo name := by simp [eq]
        have : c = '<' ∨ c ∈ name ∨ c = '>' := by simpa [referenceTo] using mem
        rcases this with rfl | mem | rfl
        · exact noOpen rfl
        · exact absurd (refers.named.part mem) (by simp [noPart])
        · exact noClose rfl

/-- The references of a text are the first one and those behind it. -/
theorem refers_first_iff {front name back front' name' back' : Text} (plain : Plain front) (named : IsName name) :
    Refers (front ++ (referenceTo name ++ back)) front' name' back' ↔
      (front' = front ∧ name' = name ∧ back' = back) ∨
        ∃ between, front' = front ++ (referenceTo name ++ between) ∧ Refers back between name' back' := by
  constructor
  · intro refers
    have named' := refers.named
    rcases List.append_eq_append_iff.mp refers.stands with ⟨mid, rfl, rest⟩ | ⟨mid, rfl, rest⟩
    · rcases List.append_eq_append_iff.mp rest with ⟨between, rfl, follows⟩ | ⟨inside, eq, follows⟩
      · exact .inr ⟨between, rfl, named', follows⟩
      · cases inside with
        | nil => exact .inr ⟨[], by simp [eq], named', by simpa using follows.symm⟩
        | cons c inside =>
          obtain rfl : '<' = c := (List.cons.inj follows).1
          obtain rfl : mid = [] := open_at_start named eq
          obtain ⟨rfl, rfl⟩ := referenceTo_append_inj named named' (by simpa using rest)
          exact .inl ⟨by simp, rfl, rfl⟩
    · cases mid with
      | nil =>
        obtain ⟨rfl, rfl⟩ := referenceTo_append_inj named' named (by simpa using rest)
        exact .inl ⟨by simp, rfl, rfl⟩
      | cons c mid =>
        -- The other reference would start before the first one, and so hold its angle bracket or end before it.
        rcases List.append_eq_append_iff.mp rest with ⟨after, eq, _⟩ | ⟨after, eq, follows⟩
        · exact absurd ⟨named', by simp [eq]⟩ (plain front' name' after)
        · cases after with
          | nil => exact absurd ⟨named', by simp [eq]⟩ (plain front' name' [])
          | cons d after =>
            obtain rfl : '<' = d := (List.cons.inj follows).1
            exact absurd (open_at_start named' eq) (by simp)
  · rintro (⟨rfl, rfl, rfl⟩ | ⟨between, rfl, refers⟩)
    · exact ⟨named, rfl⟩
    · exact ⟨refers.named, by simp [refers.stands]⟩

theorem exists_first {t : Text} (refers : ¬ Plain t) : ∃ front name back, Plain front ∧ Refers t front name back := by
  induction h : t.length using Nat.strongRecOn generalizing t with
  | _ n ih =>
    simp only [Plain, not_forall, not_not] at refers
    obtain ⟨front, name, back, refers⟩ := refers
    by_cases plain : Plain front
    · exact ⟨front, name, back, plain, refers⟩
    · have shorter : front.length < n := by
        rw [← h, refers.stands]
        simp [referenceTo]
      obtain ⟨front', name', back', plain', refers'⟩ := ih _ shorter plain rfl
      refine ⟨front', name', back' ++ (referenceTo name ++ back), plain', ?_⟩
      rw [refers.stands]
      exact refers'.append _

/-- Induction on the references of a text, from the first one on. -/
theorem text_induction {motive : Text → Prop} (plain : ∀ t, Plain t → motive t)
    (reference : ∀ front name back, Plain front → IsName name → motive back → motive (front ++ (referenceTo name ++ back)))
    (t : Text) : motive t := by
  induction h : t.length using Nat.strongRecOn generalizing t with
  | _ n ih =>
    by_cases none : Plain t
    · exact plain t none
    · obtain ⟨front, name, back, plainFront, named, rfl⟩ := exists_first none
      apply reference front name back plainFront named
      exact ih back.length (by rw [← h]; simp [referenceTo]; omega) back rfl

/-! The scanner. -/

def heldText : Option Text → Text
  | none => []
  | some held => '<' :: held.reverse

def Holdable (held : Option Text) : Prop := ∀ h, held = some h → h = [] ∨ IsName h.reverse

theorem holdable_none : Holdable none := fun _ eq => by cases eq

theorem holdable_nil : Holdable (some []) := fun _ eq => .inl (Option.some.inj eq).symm

def continues (held : Text) (c : Char) : Bool := if held.isEmpty then isNameStart c else isNamePart c

theorem Holdable.snoc {held : Text} {c : Char} (holdable : Holdable (some held)) (goesOn : continues held c = true) :
    Holdable (some (c :: held)) := by
  rintro _ ⟨⟩
  right
  cases held with
  | nil => exact .mk goesOn (fun _ mem => by cases mem)
  | cons d held =>
    have named : IsName (d :: held).reverse := (holdable _ rfl).resolve_left (List.cons_ne_nil _ _)
    rw [List.reverse_cons]
    exact named.snoc goesOn

theorem piecesFrom_hold {held : Text} {c : Char} (goesOn : continues held c = true) (rest : Text) :
    piecesFrom (c :: rest) (some held) = piecesFrom rest (some (c :: held)) := by
  have open' : (c = '>' && !held.isEmpty) = false := by
    by_contra closes
    cases held with
    | nil => simp at closes
    | cons d held =>
      obtain rfl : c = '>' := by simpa using closes
      exact absurd goesOn (by simp [continues, isNamePart, isNameStart])
  rw [piecesFrom, if_neg (by simp [open'])]
  exact if_pos goesOn

theorem piecesFrom_flush {held : Text} {c : Char} (notClosing : ¬ (c = '>' ∧ held ≠ [])) (stops : continues held c = false)
    (rest : Text) : piecesFrom (c :: rest) (some held) = .plain ('<' :: held.reverse) :: piecesFrom (c :: rest) none := by
  have stops' : ¬ (if held.isEmpty then isNameStart c else isNamePart c) = true := by
    rw [show (if held.isEmpty then isNameStart c else isNamePart c) = false from stops]
    decide
  rw [piecesFrom.eq_4, if_neg (by simpa using notClosing), if_neg stops', piecesFrom.eq_3]

/-- A text without a reference is given out as plain text, apart from what is still held at its end. -/
theorem piecesFrom_append {a : Text} {held : Option Text} (holdable : Holdable held) (plain : Plain (heldText held ++ a)) :
    ∃ (plains : List Text) (held' : Option Text), plains.flatten ++ heldText held' = heldText held ++ a ∧
      ∀ rest, piecesFrom (a ++ rest) held = plains.map .plain ++ piecesFrom rest held' := by
  induction a generalizing held with
  | nil => exact ⟨[], held, by simp, fun rest => rfl⟩
  | cons c a ih =>
    have fresh (plain : Plain (c :: a)) : ∃ (plains : List Text) (held' : Option Text),
        plains.flatten ++ heldText held' = c :: a ∧
          ∀ rest, piecesFrom (c :: (a ++ rest)) none = plains.map .plain ++ piecesFrom rest held' := by
      by_cases angle : c = '<'
      · subst angle
        obtain ⟨plains, held', eq, pieces⟩ := ih holdable_nil plain
        exact ⟨plains, held', eq, fun rest => by rw [piecesFrom, if_pos rfl, pieces]⟩
      · obtain ⟨plains, held', eq, pieces⟩ := ih holdable_none (Plain.right (a := [c]) plain)
        refine ⟨[c] :: plains, held', congrArg (c :: ·) eq, fun rest => ?_⟩
        rw [piecesFrom, if_neg angle, pieces, List.map_cons, List.cons_append]
    cases held with
    | none => exact fresh plain
    | some h =>
      by_cases closes : c = '>' ∧ h ≠ []
      · obtain ⟨rfl, nonempty⟩ := closes
        have named : IsName h.reverse := (holdable h rfl).resolve_left nonempty
        exact absurd ⟨named, by simp [heldText, referenceTo]⟩ (plain [] h.reverse a)
      · cases goesOn : continues h c with
        | true =>
          obtain ⟨plains, held', eq, pieces⟩ := ih (holdable.snoc goesOn) (by simpa [heldText] using plain)
          refine ⟨plains, held', by simpa [heldText] using eq, fun rest => ?_⟩
          rw [List.cons_append, piecesFrom_hold goesOn, pieces]
        | false =>
          obtain ⟨plains, held', eq, pieces⟩ := fresh plain.right
          refine ⟨('<' :: h.reverse) :: plains, held', ?_, fun rest => ?_⟩
          · rw [List.flatten_cons, List.append_assoc, eq]
            rfl
          · rw [List.cons_append, piecesFrom_flush closes goesOn, pieces, List.map_cons, List.cons_append]

theorem piecesFrom_end (held : Option Text) : ∃ plains : List Text, piecesFrom [] held = plains.map .plain ∧ plains.flatten = heldText held := by
  cases held with
  | none => exact ⟨[], rfl, rfl⟩
  | some h => exact ⟨['<' :: h.reverse], rfl, by simp [heldText]⟩

/-- An angle bracket starts a reference anew, whatever is held. -/
theorem piecesFrom_open (held : Option Text) : ∃ plains : List Text, plains.flatten = heldText held ∧
    ∀ rest, piecesFrom ('<' :: rest) held = plains.map .plain ++ piecesFrom rest (some []) := by
  cases held with
  | none => exact ⟨[], rfl, fun rest => by simp [piecesFrom]⟩
  | some h =>
    have stops : continues h '<' = false := by unfold continues; split <;> rfl
    refine ⟨['<' :: h.reverse], by simp [heldText], fun rest => ?_⟩
    rw [piecesFrom_flush (by simp) stops, piecesFrom, if_pos rfl]
    rfl

theorem piecesFrom_name {cs held : Text} (parts : ∀ d ∈ cs, isNamePart d = true) (nonempty : held ≠ []) (back : Text) :
    piecesFrom (cs ++ '>' :: back) (some held) = .reference (held.reverse ++ cs) :: piecesFrom back none := by
  induction cs generalizing held with
  | nil => simp [piecesFrom, nonempty]
  | cons c cs ih =>
    have goesOn : continues held c = true := by
      simp [continues, nonempty, parts c List.mem_cons_self]
    rw [List.cons_append, piecesFrom_hold goesOn, ih (fun d mem => parts d (List.mem_cons_of_mem _ mem)) (List.cons_ne_nil _ _)]
    simp

theorem pieces_plain {t : Text} (plain : Plain t) : ∃ plains : List Text, pieces t = plains.map .plain ∧ plains.flatten = t := by
  obtain ⟨plains, held, eq, pieces'⟩ := piecesFrom_append holdable_none plain
  obtain ⟨last, eqLast, lastText⟩ := piecesFrom_end held
  refine ⟨plains ++ last, ?_, by simpa [lastText, heldText] using eq⟩
  rw [pieces, ← List.append_nil t, pieces', eqLast, List.map_append]

/-- The first reference of a text is a piece of it, with plain pieces before it. -/
theorem pieces_reference {front name : Text} (plain : Plain front) (named : IsName name) (back : Text) :
    ∃ plains : List Text, plains.flatten = front ∧
      pieces (front ++ (referenceTo name ++ back)) = plains.map .plain ++ .reference name :: pieces back := by
  obtain ⟨plains, held, eq, pieces'⟩ := piecesFrom_append holdable_none plain
  obtain ⟨last, lastText, opened⟩ := piecesFrom_open held
  cases named with
  | @mk c cs start parts =>
    have scanned : piecesFrom (c :: (cs ++ '>' :: back)) (some []) = .reference (c :: cs) :: piecesFrom back none := by
      rw [piecesFrom_hold (by exact start), piecesFrom_name parts (List.cons_ne_nil _ _)]
      rfl
    refine ⟨plains ++ last, by simpa [lastText, heldText] using eq, ?_⟩
    have text : front ++ (referenceTo (c :: cs) ++ back) = front ++ '<' :: c :: (cs ++ '>' :: back) := by simp [referenceTo]
    rw [pieces, text, pieces', opened, scanned, List.map_append, List.append_assoc]
    rfl

end Netlist.Pattern
