import Netlist.CommandLine.Outcome
import Netlist.Proofs.Expression.Respelling

/-!
Parameters that are overridden on the command line. The letters of a name make no difference, as long as they
do not change which definitions of the configuration are replaced: a definition is replaced by one under exactly
its name, and one under its name in other letters is added behind it.
-/
namespace Netlist

open List (Forall₂)

def Failure.ignoringCase : Failure → Failure
  | .failed (some (.defineParameter name)) cause => .failed (some (.defineParameter (asciiLower name))) cause
  | f => f

def Respells {α : Type} (d d' : Text × α) : Prop := asciiLower d'.1 = asciiLower d.1 ∧ d'.2 = d.2

inductive Agreeing {α : Type} (R : α → α → Prop) : Except Failure α → Except Failure α → Prop
  | ok {a a' : α} (related : R a a') : Agreeing R (.ok a) (.ok a')
  | error {f f' : Failure} (same : f'.ignoringCase = f.ignoringCase) : Agreeing R (.error f) (.error f')

theorem Agreeing.bind {α β : Type} {R : α → α → Prop} {S : β → β → Prop} {x y : Except Failure α} {k l : α → Except Failure β}
    (first : Agreeing R x y) (next : ∀ a b, R a b → Agreeing S (k a) (l b)) : Agreeing S (x >>= k) (y >>= l) := by
  cases first with
  | ok related => exact next _ _ related
  | error same => exact .error same

theorem foldCase_congr {name other : Text} (same : asciiLower other = asciiLower name) : foldCase name = foldCase other := by
  rw [← foldCase_asciiLower, ← same, foldCase_asciiLower]

namespace Configuration

variable {names names' : List Text} {s s' : Session} {ds ds' : List (Text × Definition)}

/-! ### Definitions under names in other letters -/

/-- Definitions under names in other letters have the same effect, one after another. -/
theorem defineAll_respelled (same : Forall₂ Respells ds ds') (alike : s.Alike s') :
    Agreeing Session.Alike (defineAll s ds) (defineAll s' ds') := by
  induction same generalizing s s' with
  | nil => exact .ok alike
  | @cons d d' _ _ here _ ih =>
    obtain ⟨name, definition⟩ := d
    obtain ⟨other, definition'⟩ := d'
    obtain ⟨letters, rfl⟩ : asciiLower other = asciiLower name ∧ definition = definition' := ⟨here.1, here.2.symm⟩
    cases definition with
    | number v =>
      obtain ⟨outcome, after⟩ := Session.alike_set (foldCase_congr letters) v s s' alike
      unfold defineAll
      rcases left : Session.set name v s with ⟨f | a, s₁⟩ <;> rcases right : Session.set other v s' with ⟨g | b, s₁'⟩
      all_goals rw [left, right] at outcome after; cases outcome
      · exact .error rfl
      · exact ih after
    | expression t =>
      obtain ⟨outcome, after⟩ := Session.alike_derive (foldCase_congr letters) t s s' alike
      unfold defineAll
      rcases left : Session.derive name t s with ⟨f | a, s₁⟩ <;> rcases right : Session.derive other t s' with ⟨g | b, s₁'⟩
      all_goals rw [left, right] at outcome after; cases outcome
      · refine .error ?_
        cases f with
        | error e => rw [Failure.ofFault, Failure.ofFault, Failure.ignoringCase, Failure.ignoringCase, letters]
        | violated | exhausted => rfl
      · exact ih after

/-! ### Which definitions are replaced -/

def KeepsSpellings (names names' : List Text) : Prop :=
  ∀ p ∈ names.zip names', ∀ q ∈ names.zip names', p.1 = q.1 ↔ p.2 = q.2

def Corresponds {α : Type} (names names' : List Text) (d d' : Text × α) : Prop :=
  (d.1, d'.1) ∈ names.zip names' ∧ d'.2 = d.2

theorem replace_corresponds (kept : KeepsSpellings names names') {o o' : Text × Text} (own : Corresponds names names' o o')
    (same : Forall₂ (Corresponds names names') ds ds') :
    Forall₂ (Corresponds names names') (override.replace o.1 o.2 ds) (override.replace o'.1 o'.2 ds') := by
  have placed : Corresponds names names' (o.1, Definition.expression o.2) (o'.1, Definition.expression o'.2) :=
    ⟨own.1, congrArg Definition.expression own.2⟩
  induction same with
  | nil => exact .cons placed .nil
  | @cons d d' _ _ here later ih =>
    have alike : d.1 = o.1 ↔ d'.1 = o'.1 := kept _ here.1 _ own.1
    unfold override.replace
    by_cases replaced : d.1 = o.1
    · rw [if_pos (by simpa using replaced), if_pos (by simpa using alike.mp replaced), replaced, alike.mp replaced]
      exact .cons placed later
    · rw [if_neg (by simpa using replaced), if_neg (by simpa using mt alike.mpr replaced)]
      exact .cons here ih

theorem corresponds_of_names {α : Type} {os os' : List (Text × α)} (length : os.length = os'.length)
    (same : ∀ o o', (o, o') ∈ os.zip os' → o'.2 = o.2)
    (inside : ∀ p ∈ (os.map (·.1)).zip (os'.map (·.1)), p ∈ names.zip names') :
    Forall₂ (Corresponds names names') os os' := by
  refine List.forall₂_iff_zip.mpr ⟨length, fun {o o'} member => ⟨inside _ ?_, same o o' member⟩⟩
  rw [List.zip_map]
  exact List.mem_map_of_mem member

/-- What overrides make of definitions, in the order of the definitions. -/
def overriding (ds : List (Text × Definition)) (os : List (Text × Text)) : List (Text × Definition) :=
  os.foldl (fun ds o => override.replace o.1 o.2 ds) ds

theorem overriding_corresponds {os os' : List (Text × Text)} (kept : KeepsSpellings names names')
    (first : Forall₂ (Corresponds names names') ds ds') (later : Forall₂ (Corresponds names names') os os') :
    Forall₂ (Corresponds names names') (overriding ds os) (overriding ds' os') := by
  induction later generalizing ds ds' with
  | nil => exact first
  | cons own _ ih => exact ih (replace_corresponds kept own first)

/-- Overrides under names in other letters make the same definitions, up to letters, if they replace the same ones. -/
theorem overriding_respelled {os os' : List (Text × Text)} (letters : Forall₂ Respells os os')
    (kept : KeepsSpellings (ds.map (·.1) ++ os.map (·.1)) (ds.map (·.1) ++ os'.map (·.1))) :
    Forall₂ Respells (overriding ds os) (overriding ds os') := by
  have pairs : (ds.map (·.1) ++ os.map (·.1)).zip (ds.map (·.1) ++ os'.map (·.1)) =
      (ds.map (·.1)).zip (ds.map (·.1)) ++ (os.map (·.1)).zip (os'.map (·.1)) := List.zip_append rfl
  have own {α : Type} (xs : List α) (x y : α) (member : (x, y) ∈ xs.zip xs) : x = y :=
    List.forall₂_zip (List.forall₂_refl xs : Forall₂ Eq xs xs) member
  have first : Forall₂ (Corresponds _ _) ds ds := corresponds_of_names rfl (fun d d' member => by rw [own ds d d' member])
    fun p member => pairs ▸ List.mem_append_left _ member
  have later := corresponds_of_names letters.length_eq (fun o o' member => (List.forall₂_zip letters member).2)
    fun p member => pairs ▸ List.mem_append_right _ member
  have lower (name other : Text)
      (member : (name, other) ∈ (ds.map (·.1) ++ os.map (·.1)).zip (ds.map (·.1) ++ os'.map (·.1))) :
      asciiLower other = asciiLower name := by
    rw [pairs, List.mem_append] at member
    rcases member with member | member
    · rw [own _ _ _ member]
    · rw [List.zip_map] at member
      obtain ⟨⟨o, o'⟩, inside, same⟩ := List.mem_map.mp member
      obtain ⟨rfl, rfl⟩ := Prod.mk.inj same
      exact (List.forall₂_zip letters inside).1
  exact (overriding_corresponds kept first later).imp fun d d' corresponds => ⟨lower _ _ corresponds.1, corresponds.2⟩

end Configuration

namespace CommandLine

open Netlist.Configuration

theorem overridden_eq (c : Configuration) (settings : Settings) : overridden c settings =
    { c with
      dialect := settings.dialect.getD c.dialect, seed := settings.seed.or c.seed
      parameters := overriding c.parameters settings.parameters } := by
  have all (c : Configuration) (os : List (Text × Text)) :
      os.foldl (fun c o => c.override o.1 o.2) c = { c with parameters := overriding c.parameters os } := by
    induction os generalizing c with
    | nil => rfl
    | cons o os ih => exact ih _
  exact all _ _

def Outcome.ofResult : Except Failure Outcome → Outcome
  | .ok outcome => outcome
  | .error f => .failing f

theorem run_eq (files : Files) (r : Request) : r.run files = .ofResult (r.start files >>= fun c => r.action.run files c) := by
  unfold Request.run
  split
  · next eq => rw [eq, Outcome.ofResult]
  · next eq => rw [eq, Outcome.ofResult]

theorem agreeing_ofResult {x y : Except Failure Outcome} (agree : Agreeing Eq x y) :
    (Outcome.ofResult y).output = (Outcome.ofResult x).output ∧
      (Outcome.ofResult y).failure?.map Failure.ignoringCase = (Outcome.ofResult x).failure?.map Failure.ignoringCase := by
  cases agree with
  | ok same =>
    rw [same]
    exact ⟨rfl, rfl⟩
  | error same => exact ⟨rfl, congrArg some same⟩

theorem printValues_congr {scope scope' : Scope} (same : scope.Resembles scope') (world : World) (expressions : List Text) :
    printValues scope' world expressions = printValues scope world expressions := by
  induction expressions generalizing world with
  | nil => rfl
  | cons expression rest ih =>
    unfold printValues
    rw [← same.evaluate]
    split
    · rw [ih]
    · rfl

variable {c : Configuration} {definitions definitions' : List (Text × Text)}

theorem evaluate_respelled (letters : Forall₂ Respells definitions definitions')
    (kept : KeepsSpellings (c.parameters.map (·.1) ++ definitions.map (·.1)) (c.parameters.map (·.1) ++ definitions'.map (·.1)))
    (files : Files) (settings : Settings) (expressions : List Text) :
    Agreeing Eq (Action.run files c (.evaluate { settings with parameters := definitions } expressions))
      (Action.run files c (.evaluate { settings with parameters := definitions' } expressions)) := by
  have sessions : Agreeing Session.Alike (overridden c { settings with parameters := definitions }).session
      (overridden c { settings with parameters := definitions' }).session := by
    rw [overridden_eq, overridden_eq]
    exact defineAll_respelled (overriding_respelled letters kept) (.refl _)
  refine sessions.bind fun s s' alike => .ok ?_
  rw [printValues_congr alike.resembles, alike.world]

/-- The letters of the names under which parameters are overridden make no difference to what is evaluated, as long as
names are spelled alike exactly if they were: the same values are printed, and the same failure is reported, up to the
letters of the name in it. -/
theorem overrides_ignore_case (files : Files) (path : Option Text) (settings : Settings)
    (definitions definitions' : List (Text × Text)) (expressions : List Text) (letters : Forall₂ Respells definitions definitions')
    (kept : ∀ c, Request.start ⟨path, .evaluate settings expressions⟩ files = .ok c →
      KeepsSpellings (c.parameters.map (·.1) ++ definitions.map (·.1)) (c.parameters.map (·.1) ++ definitions'.map (·.1))) :
    let outcome (definitions : List (Text × Text)) : Outcome :=
      Request.run files ⟨path, .evaluate { settings with parameters := definitions } expressions⟩
    (outcome definitions').output = (outcome definitions).output ∧
      (outcome definitions').failure?.map Failure.ignoringCase = (outcome definitions).failure?.map Failure.ignoringCase := by
  intro outcome
  have run (definitions : List (Text × Text)) : outcome definitions =
      .ofResult (Request.start ⟨path, .evaluate settings expressions⟩ files >>= fun c =>
        Action.run files c (.evaluate { settings with parameters := definitions } expressions)) := run_eq files _
  rw [run, run]
  refine agreeing_ofResult ?_
  cases started : Request.start ⟨path, .evaluate settings expressions⟩ files with
  | error f => exact .error rfl
  | ok c => exact evaluate_respelled letters (kept c started) files settings expressions

/-- A new parameter in capitals, behind one that is replaced. -/
theorem overrides_ignore_case_new :
    let files : Files := fun path =>
      if path = chars "c.toml" then some (chars "[parameters]\nr = \"missing\"\nc = \"1/r\"\n") else none
    let outcome (name : Text) : Outcome := Request.run files ⟨some (chars "c.toml"), .evaluate
      { parameters := [(chars "r", chars "2"), (name, chars "c+r")] } [chars "x"]⟩
    (outcome (chars "X")).output = (outcome (chars "x")).output ∧
      (outcome (chars "X")).failure?.map Failure.ignoringCase = (outcome (chars "x")).failure?.map Failure.ignoringCase := by
  intro files outcome
  refine overrides_ignore_case files (some (chars "c.toml")) {} [(chars "r", chars "2"), (chars "x", chars "c+r")]
    [(chars "r", chars "2"), (chars "X", chars "c+r")] [chars "x"] ?_ fun c started => ?_
  · exact .cons ⟨rfl, rfl⟩ (.cons ⟨by decide, rfl⟩ .nil)
  · have read : (Request.start ⟨some (chars "c.toml"), .evaluate {} [chars "x"]⟩ files).toOption.map (·.parameters.map (·.1)) =
        some [chars "r", chars "c"] := by decide +kernel
    rw [started] at read
    have names : c.parameters.map (·.1) = [chars "r", chars "c"] := Option.some.inj read
    rw [names]
    unfold KeepsSpellings
    decide

/-- A parameter of the configuration under its name in other letters: the definition of the configuration is evaluated
all the same, and fails. -/
theorem overrides_miss_capitals :
    let files : Files := fun path => if path = chars "c.toml" then some (chars "[parameters]\nr = \"missing\"\n") else none
    let outcome (name : Text) : Outcome := Request.run files ⟨some (chars "c.toml"), .evaluate
      { parameters := [(name, chars "1")] } [chars "r"]⟩
    Respells (chars "r", chars "1") (chars "R", chars "1") ∧
      (outcome (chars "r")).output = chars "1\n" ∧ (outcome (chars "r")).failure?.isSome = false ∧
      (outcome (chars "R")).output = [] ∧ (outcome (chars "R")).failure?.isSome = true := by
  intro files outcome
  exact ⟨⟨by decide, rfl⟩, by decide +kernel, by decide +kernel, by decide +kernel, by decide +kernel⟩

end CommandLine

end Netlist
