import Mathlib.Data.List.Nodup
import Netlist.Library.Standard
import Netlist.Proofs.Expression.Reading

/-!
What is visible in a scope. In a scope whose functions are stored under their names, the operators
are the functions that are found by their own names, so the operator at the start of a text depends
only on what names mean.
-/
namespace Netlist

theorem foldFully_toLower (c : Char) : foldFully c.toLower = foldFully c := by
  rcases Nat.lt_or_ge c.toNat 128 with ascii | other
  · have all : ∀ c : Char, c.toNat < 128 → foldFully c.toLower = foldFully c := forall_ascii (by decide +kernel)
    exact all c ascii
  · rw [toLower_of_le other]

/-- Names that differ in the case of ASCII letters are equal. -/
@[simp] theorem foldCase_asciiLower (t : Text) : foldCase (asciiLower t) = foldCase t := by
  unfold foldCase asciiLower
  rw [List.flatMap_map]
  congr 1
  funext c
  exact foldFully_toLower c

namespace Named
variable {α : Type}

theorem get?_congr (named : Named α) {name other : Text} (same : foldCase name = foldCase other) :
    named.get? name = named.get? other := by
  unfold get?
  rw [same]

theorem get?_eq_none (named : Named α) (name : Text) : named.get? name = none ↔ foldCase name ∉ named.map (·.1) := by
  unfold get?
  simp only [Option.map_eq_none_iff, List.find?_eq_none, beq_iff_eq, List.mem_map, not_exists, not_and]

theorem get?_insert_self (named : Named α) (name : Text) (a : α) : (named.insert name a).get? name = some a := by
  unfold insert get?
  induction named with
  | nil => simp [replace]
  | cons entry rest ih =>
    by_cases same : entry.1 = foldCase name
    · simp [replace, same]
    · simpa [replace, same] using ih

theorem get?_insert_other (named : Named α) {name other : Text} (differ : foldCase other ≠ foldCase name) (a : α) :
    (named.insert name a).get? other = named.get? other := by
  unfold insert get?
  induction named with
  | nil => simp [replace, differ.symm]
  | cons entry rest ih =>
    by_cases same : entry.1 = foldCase name
    · simp [replace, same, differ.symm]
    · unfold replace
      rw [if_neg (by simpa using same), List.find?_cons, List.find?_cons]
      cases entry.1 == foldCase other with
      | true => rfl
      | false => exact ih

theorem mem_insert (named : Named α) (name : Text) (a : α) {entry : Text × α} (member : entry ∈ named.insert name a) :
    entry = (foldCase name, a) ∨ entry ∈ named := by
  unfold insert at member
  induction named with
  | nil => simpa [replace] using member
  | cons first rest ih =>
    unfold replace at member
    split at member
    · rcases List.mem_cons.mp member with rfl | member
      · exact .inl rfl
      · exact .inr (List.mem_cons_of_mem _ member)
    · rcases List.mem_cons.mp member with rfl | member
      · exact .inr List.mem_cons_self
      · exact (ih member).imp_right (List.mem_cons_of_mem _)

theorem nodup_insert (named : Named α) (name : Text) (a : α) (nodup : (named.map (·.1)).Nodup) :
    ((named.insert name a).map (·.1)).Nodup := by
  unfold insert
  induction named with
  | nil => simp [replace]
  | cons first rest ih =>
    rw [List.map_cons, List.nodup_cons] at nodup
    unfold replace
    split
    · next same =>
      rw [List.map_cons, List.nodup_cons]
      exact ⟨(beq_iff_eq.mp same) ▸ nodup.1, nodup.2⟩
    · next differ =>
      rw [List.map_cons, List.nodup_cons]
      refine ⟨fun member => ?_, ih nodup.2⟩
      obtain ⟨entry, inside, same⟩ := List.mem_map.mp member
      rcases mem_insert rest name a inside with rfl | inside
      · exact differ (by simpa using same.symm)
      · exact nodup.1 (List.mem_map.mpr ⟨entry, inside, same⟩)

end Named

def Frame.WellNamed (frame : Frame) : Prop :=
  (∀ entry ∈ frame.functions, entry.1 = foldCase entry.2.name) ∧ (frame.functions.map (·.1)).Nodup

theorem Frame.WellNamed.get?_eq {frame : Frame} (named : frame.WellNamed) {f : Function} :
    frame.functions.get? f.name = some f ↔ (foldCase f.name, f) ∈ frame.functions := by
  unfold Named.get?
  rw [Option.map_eq_some_iff]
  constructor
  · rintro ⟨⟨key, f⟩, found, rfl⟩
    have same := List.find?_some found
    rw [← beq_iff_eq.mp same]
    exact List.mem_of_find?_eq_some found
  · intro member
    have present : (frame.functions.find? (·.1 == foldCase f.name)).isSome = true :=
      List.find?_isSome.mpr ⟨_, member, by simp⟩
    obtain ⟨entry, found⟩ := Option.isSome_iff_exists.mp present
    have same := List.find?_some found
    have unique := List.inj_on_of_nodup_map named.2 (List.mem_of_find?_eq_some found) member (beq_iff_eq.mp same)
    exact ⟨entry, found, by rw [unique]⟩

namespace Scope

def WellNamed (s : Scope) : Prop := ∀ frame ∈ s.frames, frame.WellNamed

theorem wellNamed_empty (d : Dialect) : (empty d).WellNamed := by
  intro frame member
  rcases List.mem_singleton.mp member with rfl
  exact ⟨(fun _ member => nomatch member), List.nodup_nil⟩

theorem WellNamed.define {s : Scope} (named : s.WellNamed) (f : Function) : (s.define f).WellNamed := by
  intro frame member
  rcases List.mem_cons.mp member with rfl | ancestor
  · have first := named s.frame List.mem_cons_self
    refine ⟨fun entry inside => ?_, Named.nodup_insert _ _ _ first.2⟩
    rcases Named.mem_insert _ _ _ inside with rfl | inside
    · rfl
    · exact first.1 entry inside
  · exact named frame (List.mem_cons_of_mem _ ancestor)

theorem wellNamed_standard (d : Dialect) : (standard d).WellNamed := by
  unfold standard
  generalize Library.functions d = fs
  have all : ∀ s : Scope, s.WellNamed → (fs.foldl Scope.define s).WellNamed := by
    induction fs with
    | nil => exact fun s named => named
    | cons f fs ih => exact fun s named => ih (s.define f) (named.define f)
  exact all _ (wellNamed_empty d)

theorem WellNamed.store {s : Scope} (named : s.WellNamed) (name : Text) (value : Float) : (s.store name value).WellNamed := by
  intro frame member
  rcases List.mem_cons.mp member with rfl | ancestor
  · exact named s.frame List.mem_cons_self
  · exact named frame (List.mem_cons_of_mem _ ancestor)

theorem function?_congr (s : Scope) {name other : Text} (same : foldCase name = foldCase other) :
    s.function? name = s.function? other := by
  unfold function?
  congr 1
  funext frame
  exact Named.get?_congr _ same

theorem parameter?_congr (s : Scope) {name other : Text} (same : foldCase name = foldCase other) :
    s.parameter? name = s.parameter? other := by
  unfold parameter?
  congr 1
  funext frame
  exact Named.get?_congr _ same

theorem parameter?_store_self (s : Scope) (name : Text) (v : Float) : (s.store name v).parameter? name = some v := by
  unfold parameter? frames store
  rw [List.findSome?_cons, Named.get?_insert_self]

theorem parameter?_store_other (s : Scope) {name other : Text} (differ : foldCase other ≠ foldCase name) (v : Float) :
    (s.store name v).parameter? other = s.parameter? other := by
  unfold parameter? frames store
  rw [List.findSome?_cons, List.findSome?_cons, Named.get?_insert_other _ differ]

theorem mem_visible {frames : List Frame} (named : ∀ frame ∈ frames, frame.WellNamed) (seen : List Text) (f : Function) :
    f ∈ visible seen frames ↔
      foldCase f.name ∉ seen ∧ frames.findSome? (·.functions.get? f.name) = some f := by
  induction frames generalizing seen with
  | nil => simp [visible]
  | cons frame rest ih =>
    have first := named frame List.mem_cons_self
    have later := ih fun other member => named other (List.mem_cons_of_mem _ member)
    have fresh : f ∈ (frame.functions.filter (!seen.contains ·.1)).map (·.2) ↔
        foldCase f.name ∉ seen ∧ frame.functions.get? f.name = some f := by
      rw [first.get?_eq, List.mem_map]
      constructor
      · rintro ⟨⟨key, f⟩, member, rfl⟩
        obtain ⟨inside, unseen⟩ := List.mem_filter.mp member
        have stored : key = foldCase f.name := first.1 _ inside
        rw [← stored]
        exact ⟨by simpa using unseen, inside⟩
      · rintro ⟨unseen, inside⟩
        exact ⟨_, List.mem_filter.mpr ⟨inside, by simpa using unseen⟩, rfl⟩
    have keys : foldCase f.name ∉ (frame.functions.filter (!seen.contains ·.1)).map (·.1) ++ seen ↔
        foldCase f.name ∉ seen ∧ frame.functions.get? f.name = none := by
      rw [Named.get?_eq_none, List.mem_append, not_or, and_comm]
      refine and_congr_right fun unseen => not_congr ?_
      rw [List.mem_map, List.mem_map]
      constructor
      · rintro ⟨entry, member, same⟩
        exact ⟨entry, (List.mem_filter.mp member).1, same⟩
      · rintro ⟨entry, member, same⟩
        exact ⟨entry, List.mem_filter.mpr ⟨member, by simpa [same] using unseen⟩, same⟩
    unfold visible
    rw [List.mem_append, fresh, later, keys, List.findSome?_cons]
    cases frame.functions.get? f.name with
    | none => simp
    | some g => simp

theorem WellNamed.mem_operators {s : Scope} (named : s.WellNamed) {f : Function} :
    f ∈ s.operators ↔ f.isOperator = true ∧ s.function? f.name = some f := by
  unfold operators
  rw [List.mem_filter, mem_visible named, and_comm]
  simp [function?]

@[simp] theorem parameter?_child (s : Scope) (name : Text) : (s.child []).parameter? name = s.parameter? name := rfl

@[simp] theorem function?_child (s : Scope) (name : Text) : (s.child []).function? name = s.function? name := rfl

theorem WellNamed.child {s : Scope} (named : s.WellNamed) (bindings : List (Text × Float)) :
    (s.child bindings).WellNamed := by
  unfold Scope.child
  have inner : WellNamed { dialect := s.dialect, ancestors := s.frames } := by
    intro frame member
    rcases List.mem_cons.mp member with rfl | inside
    · exact ⟨(fun _ member => nomatch member), List.nodup_nil⟩
    · exact named frame inside
  revert inner
  generalize ({ dialect := s.dialect, ancestors := s.frames } : Scope) = scope
  induction bindings generalizing scope with
  | nil => exact id
  | cons binding bindings ih => exact fun inner => ih _ (inner.store _ _)

/-- A function that a text can call is found under its own name. -/
theorem WellNamed.function?_name {s : Scope} (named : s.WellNamed) {name : Text} {f : Function}
    (found : s.function? name = some f) : s.function? f.name = some f := by
  obtain ⟨frame, member, got⟩ := List.exists_of_findSome?_eq_some found
  unfold Named.get? at got
  obtain ⟨⟨key, g⟩, entry, rfl⟩ := Option.map_eq_some_iff.mp got
  have stored := (named frame member).1 _ (List.mem_of_find?_eq_some entry)
  have same : key = foldCase name := by simpa using List.find?_some entry
  rw [← found]
  exact s.function?_congr (stored.symm.trans same)

private theorem afterName?_agree {name other t rest rest' : Text} (read : afterName? name t = some rest)
    (read' : afterName? other t = some rest') (size : byteSize name = byteSize other) : asciiLower name = asciiLower other := by
  obtain ⟨p, rfl, lower⟩ := afterName?_eq_some.mp read
  obtain ⟨q, same, lower'⟩ := afterName?_eq_some.mp read'
  have sizes : byteSize p = byteSize q := by
    rw [← byteSize_asciiLower p, lower, ← byteSize_asciiLower q, lower', byteSize_asciiLower, byteSize_asciiLower, size]
  have longer := prefix_of_byteSize_le same.symm (Nat.le_of_eq sizes.symm)
  have equal : p = q := (prefix_of_byteSize_le same (Nat.le_of_eq sizes)).eq_of_length_le longer.length_le
  rw [← lower, equal, lower']

/-- Operators that a text starts with, with names of the same length, have the same name. -/
theorem foldCase_eq_of_afterOperator? {f g : Function} {t rest rest' : Text} (read : afterOperator? f t = some rest)
    (read' : afterOperator? g t = some rest') (size : byteSize f.name = byteSize g.name) : foldCase f.name = foldCase g.name := by
  have lower := afterName?_agree (Option.filter_eq_some_iff.mp read).1 (Option.filter_eq_some_iff.mp read').1 size
  rw [← foldCase_asciiLower, lower, foldCase_asciiLower]

/-- Among operators with different names, the longest one does not depend on their order. -/
theorem longestOperator?_congr {operators operators' : List Function} (members : ∀ f, f ∈ operators' ↔ f ∈ operators)
    (distinct : ∀ f ∈ operators, ∀ g ∈ operators, foldCase f.name = foldCase g.name → f = g) (t : Text) :
    longestOperator? operators' t = longestOperator? operators t := by
  cases read : longestOperator? operators t with
  | none =>
    cases read' : longestOperator? operators' t with
    | none => rfl
    | some best =>
      obtain ⟨member, after, -⟩ := isLongest_of_longestOperator? read'
      rw [afterOperator?_eq_none read ((members _).mp member)] at after
      cases after
  | some best =>
    cases read' : longestOperator? operators' t with
    | none =>
      obtain ⟨member, after, -⟩ := isLongest_of_longestOperator? read
      rw [afterOperator?_eq_none read' ((members _).mpr member)] at after
      cases after
    | some best' =>
      obtain ⟨member, after, longest⟩ := isLongest_of_longestOperator? read
      obtain ⟨member', after', longest'⟩ := isLongest_of_longestOperator? read'
      have size : byteSize best.1.name = byteSize best'.1.name :=
        Nat.le_antisymm (longest' _ ((members _).mpr member) (by rw [after]; rfl))
          (longest _ ((members _).mp member') (by rw [after']; rfl))
      have function : best.1 = best'.1 :=
        distinct _ member _ ((members _).mp member') (foldCase_eq_of_afterOperator? after after' size)
      rw [← function, after] at after'
      exact congrArg some (Prod.ext function.symm (Option.some.inj after').symm)

theorem WellNamed.eq_of_foldCase {s : Scope} (named : s.WellNamed) {f g : Function} (member : f ∈ s.operators)
    (member' : g ∈ s.operators) (fold : foldCase f.name = foldCase g.name) : f = g := by
  have found := (named.mem_operators.mp member).2
  have found' := (named.mem_operators.mp member').2
  rw [← s.function?_congr fold, found] at found'
  exact Option.some.inj found'

/-- The operator at the start of a text depends only on what names mean. -/
theorem longestOperator?_eq {s s' : Scope} (named : s.WellNamed) (named' : s'.WellNamed)
    (same : ∀ name, s'.function? name = s.function? name) (t : Text) :
    longestOperator? s'.operators t = longestOperator? s.operators t := by
  have members (f : Function) : f ∈ s'.operators ↔ f ∈ s.operators := by
    rw [named.mem_operators, named'.mem_operators, same]
  exact longestOperator?_congr members (fun f member g member' => named.eq_of_foldCase member member') t

/-! ### Scopes that hold the library -/

theorem function?_define_self (s : Scope) (f : Function) : (s.define f).function? f.name = some f := by
  unfold function? frames define
  rw [List.findSome?_cons, Named.get?_insert_self]

theorem function?_define_other (s : Scope) {f : Function} {name : Text} (differ : foldCase name ≠ foldCase f.name) :
    (s.define f).function? name = s.function? name := by
  unfold function? frames define
  rw [List.findSome?_cons, List.findSome?_cons, Named.get?_insert_other _ differ]

theorem mem_of_function?_define {s : Scope} {f g : Function} {name : Text} (found : (s.define f).function? name = some g) :
    g = f ∨ s.function? name = some g := by
  by_cases same : foldCase name = foldCase f.name
  · rw [function?_congr _ same, function?_define_self] at found
    exact .inl (Option.some.inj found).symm
  · rw [function?_define_other _ same] at found
    exact .inr found

theorem mem_of_function?_standard {d : Dialect} {name : Text} {g : Function} (found : (standard d).function? name = some g) :
    g ∈ Library.functions d := by
  have all (fs : List Function) (s : Scope) (found : (fs.foldl define s).function? name = some g) :
      g ∈ fs ∨ s.function? name = some g := by
    induction fs generalizing s with
    | nil => exact .inr found
    | cons f fs ih =>
      rcases ih (s.define f) found with later | here
      · exact .inl (List.mem_cons_of_mem _ later)
      · exact (mem_of_function?_define here).imp_left fun same => List.mem_cons.mpr (.inl same)
  rcases all _ _ found with member | before
  · exact member
  · cases before

theorem function?_foldl_define {fs : List Function} (distinct : (fs.map fun f => foldCase f.name).Nodup) {f : Function}
    (member : f ∈ fs) (s : Scope) : (fs.foldl define s).function? f.name = some f := by
  have others (fs : List Function) (s : Scope) (differ : foldCase f.name ∉ fs.map fun f => foldCase f.name) :
      (fs.foldl define s).function? f.name = s.function? f.name := by
    induction fs generalizing s with
    | nil => rfl
    | cons g fs ih =>
      rw [List.map_cons, List.mem_cons, not_or] at differ
      rw [List.foldl_cons, ih _ differ.2, function?_define_other _ differ.1]
  induction fs generalizing s with
  | nil => cases member
  | cons g fs ih =>
    rw [List.map_cons, List.nodup_cons] at distinct
    rcases List.mem_cons.mp member with rfl | later
    · rw [List.foldl_cons, others fs _ distinct.1, function?_define_self]
    · exact ih distinct.2 later _

/-- The functions of the library are found by their names. -/
theorem function?_standard {d : Dialect} {f : Function} (member : f ∈ Library.functions d) :
    (standard d).function? f.name = some f := by
  have names : (Library.functions d).map (fun f => foldCase f.name) =
      (Library.functions .spice3f5).map fun f => foldCase f.name := rfl
  have distinct : ((Library.functions d).map fun f => foldCase f.name).Nodup := by
    rw [names]
    decide +kernel
  exact function?_foldl_define distinct member _

theorem standard_dialect (d : Dialect) : (standard d).dialect = d := by
  have all (fs : List Function) (s : Scope) : (fs.foldl define s).dialect = s.dialect := by
    induction fs generalizing s with
    | nil => rfl
    | cons f fs ih => exact ih (s.define f)
  exact all _ _

/-- Whether all functions that a text can call in a scope are those of the library of its dialect. -/
def HoldsLibrary (s : Scope) : Prop :=
  ∀ f, (∃ name, s.function? name = some f) ∨ f ∈ s.operators → f ∈ Library.functions s.dialect

theorem HoldsLibrary.child {s : Scope} (library : s.HoldsLibrary) : (s.child []).HoldsLibrary := library

theorem HoldsLibrary.store {s : Scope} (library : s.HoldsLibrary) (name : Text) (value : Float) : (s.store name value).HoldsLibrary :=
  library

theorem holdsLibrary_standard (d : Dialect) : (standard d).HoldsLibrary := by
  intro f offered
  rw [standard_dialect]
  rcases offered with ⟨name, found⟩ | operator
  · exact mem_of_function?_standard found
  · exact mem_of_function?_standard ((wellNamed_standard d).mem_operators.mp operator).2

end Scope

end Netlist
