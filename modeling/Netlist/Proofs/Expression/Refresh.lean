import Mathlib.Logic.Relation
import Netlist.Expression.Refresh
import Netlist.Proofs.Expression.Steady

/-!
Setting a parameter while others are derived from it. A derivation may read parameters that are still
to change, but each change refreshes all of its readers, so what holds between a parameter and its
expression holds again when the change is over. Readers are never passed over: a callback that is
running belongs to a parameter upstream, and nothing upstream reads what is downstream.
-/
namespace Netlist
open Relation

structure Derivation where
  name : Text
  text : Text
  names : FreeNames

namespace Derivation

def key (d : Derivation) : Text := foldCase d.name

def Reads (d : Derivation) (x : Text) : Prop := x ∈ d.names.parameters.map foldCase

def registration (d : Derivation) : Registration where
  text := d.text
  reads := d.names.parameters.map foldCase
  callback := Script.assign d.name

end Derivation

/-- Derivations over a scope whose parameters feed one another without a cycle. -/
structure Network (base : Scope) (feeds : Text → Text → Prop) (ds : List Derivation) : Prop where
  named : base.WellNamed
  acyclic : ∀ x, ¬ TransGen feeds x x
  steady : ∀ d ∈ ds, base.Steady d.text d.names
  feeding : ∀ d ∈ ds, ∀ x, d.Reads x → feeds x d.key
  unique : ∀ d ∈ ds, ∀ d' ∈ ds, d.key = d'.key → d = d'

theorem Network.subset {base : Scope} {feeds : Text → Text → Prop} {ds more : List Derivation}
    (network : Network base feeds more) (inside : ∀ d ∈ ds, d ∈ more) : Network base feeds ds where
  named := network.named
  acyclic := network.acyclic
  steady d member := network.steady d (inside d member)
  feeding d member := network.feeding d (inside d member)
  unique d member d' member' := network.unique d (inside d member) d' (inside d' member')

theorem Network.concat {base : Scope} {feeds : Text → Text → Prop} {ds : List Derivation} (network : Network base feeds ds)
    {d : Derivation} (steady : base.Steady d.text d.names) (feeding : ∀ x, d.Reads x → feeds x d.key)
    (other : ∀ d' ∈ ds, d.key ≠ d'.key) : Network base feeds (ds ++ [d]) where
  named := network.named
  acyclic := network.acyclic
  steady d' member := by
    rcases List.mem_append.mp member with earlier | latest
    · exact network.steady d' earlier
    · rcases List.mem_singleton.mp latest with rfl
      exact steady
  feeding d' member := by
    rcases List.mem_append.mp member with earlier | latest
    · exact network.feeding d' earlier
    · rcases List.mem_singleton.mp latest with rfl
      exact feeding
  unique d₁ member₁ d₂ member₂ same := by
    rcases List.mem_append.mp member₁ with earlier₁ | latest₁ <;> rcases List.mem_append.mp member₂ with earlier₂ | latest₂
    · exact network.unique d₁ earlier₁ d₂ earlier₂ same
    · rcases List.mem_singleton.mp latest₂ with rfl
      exact absurd same.symm (other d₁ earlier₁)
    · rcases List.mem_singleton.mp latest₁ with rfl
      exact absurd same (other d₂ earlier₂)
    · exact (List.mem_singleton.mp latest₁).trans (List.mem_singleton.mp latest₂).symm

namespace Session

structure Hosts (base : Scope) (ds : List Derivation) (s : Session) : Prop where
  fits : base.Over s.scope
  registrations : s.scope.frame.registrations.map ({ · with running := false }) = ds.map Derivation.registration

def Keeps (s : Session) (d : Derivation) : Prop :=
  ∃ v, s.scope.parameter? d.name = some v ∧ ∀ w, (s.scope.evaluate none d.text w).1 = .ok v

def RunsAbove (feeds : Text → Text → Prop) (ds : List Derivation) (s : Session) (key : Text) : Prop :=
  ∀ (i : Nat) (r : Registration) (d : Derivation), s.scope.frame.registrations[i]? = some r → r.running = true →
    ds[i]? = some d → ReflTransGen feeds d.key key

/-- Whether two sessions differ in certain parameters only, apart from marks and worlds. -/
structure Changes (touched : Text → Prop) (s s' : Session) : Prop where
  fits : s.scope.Over s'.scope
  elsewhere : ∀ name, ¬ touched (foldCase name) → s'.scope.parameter? name = s.scope.parameter? name

namespace Changes
variable {touched touched' : Text → Prop} {s s' s'' : Session}

theorem trans (first : Changes touched s s') (second : Changes touched s' s'') : Changes touched s s'' :=
  ⟨first.fits.trans second.fits, fun name apart => (second.elsewhere name apart).trans (first.elsewhere name apart)⟩

theorem mono (changes : Changes touched s s') (more : ∀ x, touched x → touched' x) : Changes touched' s s' :=
  ⟨changes.fits, fun name apart => changes.elsewhere name fun inside => apart (more _ inside)⟩

end Changes

/-- A stored value is that of an expression as long as what the expression reads is what it was when it had the value. -/
theorem keeps_of_stored {base : Scope} {s s' : Session} {d : Derivation} {v : Float} (named : base.WellNamed)
    (steady : base.Steady d.text d.names) (fits : base.Over s.scope) (fits' : base.Over s'.scope)
    (value : ∃ w, (s.scope.evaluate none d.text w).1 = .ok v) (stored : s'.scope.parameter? d.name = some v)
    (unread : ∀ n ∈ d.names.parameters, s'.scope.parameter? n = s.scope.parameter? n) : s'.Keeps d := by
  obtain ⟨w', value⟩ := value
  refine ⟨v, stored, fun w => ?_⟩
  rw [← value]
  exact steady.evaluate_eq named fits' fits unread none w w'

theorem Keeps.of_steady {base : Scope} {touched : Text → Prop} {s s' : Session} {d : Derivation} (keeps : s.Keeps d)
    (named : base.WellNamed) (steady : base.Steady d.text d.names) (fits : base.Over s.scope) (changes : Changes touched s s')
    (apart : ¬ touched d.key) (unread : ∀ x, d.Reads x → ¬ touched x) : s'.Keeps d := by
  obtain ⟨v, stored, value⟩ := keeps
  refine keeps_of_stored named steady fits (fits.trans changes.fits) ⟨{}, value {}⟩
    ((changes.elsewhere d.name apart).trans stored) fun n inside => ?_
  exact changes.elsewhere n (unread _ (List.mem_map_of_mem inside))

theorem Keeps.of_changes {base : Scope} {feeds : Text → Text → Prop} {ds : List Derivation} (network : Network base feeds ds)
    {touched : Text → Prop} {s s' : Session} {d : Derivation} (keeps : s.Keeps d) (member : d ∈ ds) (fits : base.Over s.scope)
    (changes : Changes touched s s') (apart : ¬ touched d.key) (unread : ∀ x, d.Reads x → ¬ touched x) : s'.Keeps d :=
  keeps.of_steady network.named (network.steady d member) fits changes apart unread

def marked (index : Nat) (running : Bool) (s : Session) : Session :=
  { s with scope := { s.scope with frame := { s.scope.frame with
      registrations := s.scope.frame.registrations.modify index ({ · with running }) } } }

theorem changes_marked (touched : Text → Prop) (index : Nat) (running : Bool) (s : Session) :
    Changes touched s (s.marked index running) := ⟨⟨rfl, rfl⟩, fun _ _ => rfl⟩

theorem unmark_mark {rs : List Registration} {index : Nat} {r : Registration} (found : rs[index]? = some r)
    (idle : r.running = false) :
    (rs.modify index ({ · with running := true })).modify index ({ · with running := false }) = rs := by
  rw [List.modify_modify_eq]
  refine List.ext_getElem? fun i => ?_
  rw [List.getElem?_modify]
  by_cases here : index = i
  · subst here
    simp [found, ← idle]
  · simp [here]

theorem run_assign (set : Text → Float → Update Unit) (name : Text) (v : Float) :
    run set (Script.assign name v) = set name v := by
  funext s
  change ((set name v).attempt >>= _ : Update Unit) s = _
  rw [Eval.bind_apply, Eval.attempt_apply]
  rcases set name v s with ⟨(e | _ | _) | ⟨⟩, s'⟩ <;> rfl

/-- An evaluation in a session changes nothing but the world. -/
theorem evaluate_ok {t : Text} {s s' : Session} {v : Float} (ok : evaluate t s = (.ok v, s')) :
    (s.scope.evaluate none t s.world).1 = .ok v ∧ ∃ w, s' = { s with world := w } :=
  ⟨congrArg Prod.fst ok, _, (congrArg Prod.snd ok).symm⟩

/-- A refresh that came to an end has evaluated the expression and run its callback, marked while it did. -/
theorem refreshOne_ok {set : Text → Float → Update Unit} {index : Nat} {s s' : Session} {r : Registration}
    (found : s.scope.frame.registrations[index]? = some r) (idle : r.running = false)
    (ok : refreshOne set index s = (.ok (), s')) :
    ∃ v s₁ s₂, evaluate r.text (s.marked index true) = (.ok v, s₁) ∧ run set (r.callback v) s₁ = (.ok (), s₂) ∧
      s' = s₂.marked index false := by
  obtain ⟨_, s₀, got, ok⟩ := Eval.bind_ok ok
  cases got
  rw [found] at ok
  dsimp only at ok
  rw [if_neg (by simp [idle])] at ok
  obtain ⟨⟨⟩, s₀, mark, ok⟩ := Eval.bind_ok ok
  obtain rfl : s.marked index true = s₀ := congrArg Prod.snd mark
  obtain ⟨outcome, s₂, attempted, ok⟩ := Eval.bind_ok ok
  obtain ⟨⟨⟩, s₃, unmark, ok⟩ := Eval.bind_ok ok
  obtain rfl : s₂.marked index false = s₃ := congrArg Prod.snd unmark
  cases outcome with
  | error e => cases ok
  | ok a =>
    obtain ⟨v, s₁, evaluated, called⟩ := Eval.bind_ok (Eval.attempt_ok attempted)
    exact ⟨v, s₁, s₂, evaluated, called, (congrArg Prod.snd ok).symm⟩

variable {base : Scope} {feeds : Text → Text → Prop} {ds : List Derivation} {key : Text} {s s' s'' : Session}

theorem Hosts.registration? (hosts : s.Hosts base ds) {i : Nat} {d : Derivation} (derived : ds[i]? = some d) :
    ∃ r, s.scope.frame.registrations[i]? = some r ∧ { r with running := false } = d.registration := by
  have same := congrArg (·[i]?) hosts.registrations
  simp only [List.getElem?_map, derived, Option.map_some, Option.map_eq_some_iff] at same
  exact same

theorem Hosts.derivation? (hosts : s.Hosts base ds) {i : Nat} {r : Registration}
    (found : s.scope.frame.registrations[i]? = some r) :
    ∃ d, ds[i]? = some d ∧ { r with running := false } = d.registration := by
  have same := congrArg (·[i]?) hosts.registrations
  simp only [List.getElem?_map, found, Option.map_some] at same
  obtain ⟨d, derived, rest⟩ := Option.map_eq_some_iff.mp same.symm
  exact ⟨d, derived, rest.symm⟩

/-- The registrations of a session are those of another one over the same functions. -/
theorem Hosts.of_changes {touched : Text → Prop} (hosts : s.Hosts base ds) (changes : Changes touched s s')
    (registrations : s'.scope.frame.registrations = s.scope.frame.registrations) : s'.Hosts base ds :=
  ⟨hosts.fits.trans changes.fits, registrations ▸ hosts.registrations⟩

theorem Hosts.marked (hosts : s.Hosts base ds) (index : Nat) (running : Bool) : (s.marked index running).Hosts base ds := by
  refine ⟨hosts.fits.trans (changes_marked (fun _ => False) index running s).fits, ?_⟩
  rw [← hosts.registrations]
  refine List.ext_getElem? fun i => ?_
  change ((s.scope.frame.registrations.modify index _).map _)[i]? = _
  rw [List.getElem?_map, List.getElem?_map, List.getElem?_modify]
  split <;> cases s.scope.frame.registrations[i]? <;> rfl

theorem RunsAbove.marked (above : s.RunsAbove feeds ds key) {i : Nat} {d : Derivation} (derived : ds[i]? = some d)
    (feeding : feeds key d.key) : (s.marked i true).RunsAbove feeds ds d.key := by
  intro j r d' found running derived'
  change (s.scope.frame.registrations.modify i _)[j]? = some r at found
  rw [List.getElem?_modify] at found
  split at found
  · next same =>
    subst same
    rw [derived, Option.some_inj] at derived'
    rw [derived']
  · exact (above j r d' (by simpa using found) running derived').tail feeding

/-- What setting a parameter brings about: it is stored, nothing changes but what it feeds into, and no
derivation is lost but one of the parameter itself. Those that read it are gained. -/
structure Sets (feeds : Text → Text → Prop) (ds : List Derivation) (name : Text) (v : Float) (s s' : Session) : Prop where
  changes : Changes (ReflTransGen feeds (foldCase name)) s s'
  registrations : s'.scope.frame.registrations = s.scope.frame.registrations
  stored : s'.scope.parameter? name = some v
  keeps : ∀ d ∈ ds, (s.Keeps d ∧ d.key ≠ foldCase name) ∨ d.Reads (foldCase name) → s'.Keeps d

/-- A derivation is up to date once its parameter has been set to the value its expression had, as nothing
that it reads has changed meanwhile. -/
theorem Sets.keeps_self (network : Network base feeds ds) {more : List Derivation} {d : Derivation} (member : d ∈ ds) {v : Float}
    (fits : base.Over s.scope) (value : ∃ w, (s.scope.evaluate none d.text w).1 = .ok v)
    (sets : Sets feeds more d.name v s s') : s'.Keeps d := by
  refine keeps_of_stored network.named (network.steady d member) fits (fits.trans sets.changes.fits) value sets.stored
    fun n inside => ?_
  refine sets.changes.elsewhere n fun fed => network.acyclic (foldCase n) ?_
  exact .head' (network.feeding d member _ (List.mem_map_of_mem inside)) fed

/-- A way to set parameters that brings this about whenever it ends, as long as what is running is
upstream. -/
def Setter (base : Scope) (feeds : Text → Text → Prop) (ds : List Derivation) (set : Text → Float → Update Unit) : Prop :=
  ∀ name v s s', s.Hosts base ds → s.RunsAbove feeds ds (foldCase name) → set name v s = (.ok (), s') →
    Sets feeds ds name v s s'

/-- What refreshing derivations brings about that read a parameter with the given folded name. -/
structure Refreshes (feeds : Text → Text → Prop) (ds : List Derivation) (key : Text) (fresh : Derivation → Prop)
    (s s' : Session) : Prop where
  changes : Changes (TransGen feeds key) s s'
  registrations : s'.scope.frame.registrations = s.scope.frame.registrations
  keeps : ∀ d ∈ ds, s.Keeps d ∨ fresh d → s'.Keeps d

theorem refreshOne_refreshes (network : Network base feeds ds) {set : Text → Float → Update Unit}
    (setter : Setter base feeds ds set) (hosts : s.Hosts base ds) (above : s.RunsAbove feeds ds key) {i : Nat} {d : Derivation}
    (derived : ds[i]? = some d) (reads : d.Reads key) (ok : refreshOne set i s = (.ok (), s')) :
    Refreshes feeds ds key (· = d) s s' := by
  have member : d ∈ ds := List.mem_of_getElem? derived
  have feeding : feeds key d.key := network.feeding d member key reads
  obtain ⟨r, found, same⟩ := hosts.registration? derived
  have idle : r.running = false := by
    by_contra running
    exact network.acyclic key (.head' feeding (above i r d found (by simpa using running) derived))
  obtain ⟨v, s₁, s₂, evaluated, called, rfl⟩ := refreshOne_ok found idle ok
  rw [show r.callback = Script.assign d.name from congrArg Registration.callback same, run_assign] at called
  rw [show r.text = d.text from congrArg Registration.text same] at evaluated
  obtain ⟨value, w, rfl⟩ := evaluate_ok evaluated
  have marks (touched : Text → Prop) : Changes touched s { s.marked i true with world := w } :=
    ⟨(changes_marked touched i true s).fits, (changes_marked touched i true s).elsewhere⟩
  have hosts₁ : Hosts base ds { s.marked i true with world := w } :=
    ⟨(hosts.marked i true).fits, (hosts.marked i true).registrations⟩
  have sets := setter d.name v _ s₂ hosts₁ (above.marked derived feeding) called
  have unmarks (touched : Text → Prop) := changes_marked touched i false s₂
  refine ⟨((marks _).trans (sets.changes.mono fun x fed => .head' feeding fed)).trans (unmarks _), ?_, fun d' member' kept => ?_⟩
  · change s₂.scope.frame.registrations.modify i _ = _
    rw [sets.registrations]
    exact unmark_mark found idle
  · have fits₂ : base.Over s₂.scope := hosts₁.fits.trans sets.changes.fits
    refine Keeps.of_changes network ?_ member' fits₂ (unmarks fun _ => False) id fun _ _ => id
    by_cases fresh : d' = d
    · subst fresh
      exact sets.keeps_self network member' hosts₁.fits ⟨_, value⟩
    · refine sets.keeps d' member' (.inl ⟨?_, fun same => fresh (network.unique d' member' d member same)⟩)
      exact (kept.resolve_right fresh).of_changes network member' hosts.fits (marks fun _ => False) id fun _ _ => id

theorem refresh_refreshes (network : Network base feeds ds) {set : Text → Float → Update Unit}
    (setter : Setter base feeds ds set) (hosts : s.Hosts base ds) (above : s.RunsAbove feeds ds key) {indices : List Nat}
    (readers : ∀ i ∈ indices, ∃ d, ds[i]? = some d ∧ d.Reads key) (ok : refresh set indices s = (.ok (), s')) :
    Refreshes feeds ds key (fun d => ∃ i ∈ indices, ds[i]? = some d) s s' := by
  induction indices generalizing s with
  | nil =>
    obtain rfl : s = s' := congrArg Prod.snd ok
    exact ⟨⟨.refl _, fun _ _ => rfl⟩, rfl, fun d _ kept => kept.resolve_right fun ⟨_, absent, _⟩ => nomatch absent⟩
  | cons i indices ih =>
    obtain ⟨⟨⟩, s₁, one, rest⟩ := Eval.bind_ok ok
    obtain ⟨d, derived, reads⟩ := readers i List.mem_cons_self
    have first := refreshOne_refreshes network setter hosts above derived reads one
    have above' : s₁.RunsAbove feeds ds key := fun i r d found => above i r d (first.registrations ▸ found)
    have later := ih (hosts.of_changes first.changes first.registrations) above'
      (fun i member => readers i (List.mem_cons_of_mem _ member)) rest
    refine ⟨first.changes.trans later.changes, later.registrations.trans first.registrations, fun d' member kept => ?_⟩
    rcases kept with kept | ⟨i', inside, derived'⟩
    · exact later.keeps d' member (.inl (first.keeps d' member (.inl kept)))
    · rcases List.mem_cons.mp inside with rfl | inside
      · rw [derived, Option.some_inj] at derived'
        exact later.keeps d' member (.inl (first.keeps d' member (.inr derived'.symm)))
      · exact later.keeps d' member (.inr ⟨i', inside, derived'⟩)

theorem mem_affected {scope : Scope} {name : Text} {i : Nat} :
    i ∈ affected scope name ↔ ∃ r, scope.frame.registrations[i]? = some r ∧ foldCase name ∈ r.reads := by
  unfold affected
  rw [List.mem_map]
  constructor
  · rintro ⟨⟨r, i⟩, member, rfl⟩
    obtain ⟨inside, reads⟩ := List.mem_filter.mp member
    exact ⟨r, (List.mk_mem_zipIdx_iff_getElem?).mp inside, by simpa [Registration.readsName] using reads⟩
  · rintro ⟨r, found, reads⟩
    refine ⟨(r, i), List.mem_filter.mpr ⟨(List.mk_mem_zipIdx_iff_getElem?).mpr found, ?_⟩, rfl⟩
    simpa [Registration.readsName] using reads

theorem changes_store (s : Session) (name : Text) (v : Float) :
    Changes (· = foldCase name) s { s with scope := s.scope.store name v } :=
  ⟨⟨rfl, rfl⟩, fun _ apart => s.scope.parameter?_store_other apart v⟩

/-- Setting a parameter keeps all derivations, however deep callbacks nest. -/
theorem setter_setWithin (network : Network base feeds ds) (depth : Nat) : Setter base feeds ds (setWithin depth) := by
  induction depth with
  | zero => exact fun name v s s' hosts above ok => nomatch congrArg Prod.fst ok
  | succ depth ih =>
    intro name v s s' hosts above ok
    obtain ⟨⟨⟩, s₁, changed, ok⟩ := Eval.bind_ok ok
    obtain ⟨_, s₂, got, ok⟩ := Eval.bind_ok ok
    cases got
    obtain rfl : { s with scope := s.scope.store name v } = s₁ := congrArg Prod.snd changed
    have stores := changes_store s name v
    have readers : ∀ i ∈ affected (s.scope.store name v) name, ∃ d, ds[i]? = some d ∧ d.Reads (foldCase name) := by
      intro i member
      obtain ⟨r, found, reads⟩ := mem_affected.mp member
      obtain ⟨d, derived, same⟩ := hosts.derivation? found
      exact ⟨d, derived, show foldCase name ∈ d.registration.reads from same ▸ reads⟩
    have refreshed := refresh_refreshes network ih (hosts.of_changes stores rfl) above readers ok
    refine ⟨(stores.mono fun x here => here ▸ .refl).trans (refreshed.changes.mono fun x => TransGen.to_reflTransGen),
      refreshed.registrations, ?_, fun d member kept => ?_⟩
    · exact (refreshed.changes.elsewhere name (network.acyclic _)).trans (s.scope.parameter?_store_self name v)
    · by_cases reads : d.Reads (foldCase name)
      · obtain ⟨i, derived⟩ := List.getElem?_of_mem member
        obtain ⟨r, found, same⟩ := hosts.registration? derived
        have reader : foldCase name ∈ r.reads := show foldCase name ∈ ({ r with running := false } : Registration).reads from same ▸ reads
        exact refreshed.keeps d member (.inr ⟨i, mem_affected.mpr ⟨r, found, reader⟩, derived⟩)
      · obtain ⟨kept, other⟩ := kept.resolve_right reads
        exact refreshed.keeps d member (.inl (kept.of_changes network member hosts.fits stores other
          fun x read same => reads (same ▸ read)))

end Session

end Netlist
