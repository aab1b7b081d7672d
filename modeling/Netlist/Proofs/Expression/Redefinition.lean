import Netlist.Proofs.Expression.Consistency
import Netlist.Proofs.Expression.Course

/-!
Parameters that are defined more than once. A definition that is superseded stays registered, and a parameter
that is set refreshes old definitions along with new ones; of several definitions of one parameter the one that
is refreshed last decides.
-/
namespace Netlist
open Relation

namespace Derivation

def Feeds (ds : List Derivation) (x y : Text) : Prop := ∃ d ∈ ds, d.Reads x ∧ y = d.key

def latest (ds : List Derivation) (key : Text) (places : List Nat) : Option Nat :=
  (places.filter fun i => ds[i]?.any (·.key == key)).getLast?

variable {ds : List Derivation} {key : Text} {places : List Nat} {i : Nat} {d : Derivation}

theorem latest_append (ds : List Derivation) (key : Text) (earlier later : List Nat) :
    latest ds key (earlier ++ later) = (latest ds key later).or (latest ds key earlier) := by
  rw [latest, List.filter_append, List.getLast?_append]
  rfl

theorem of_latest (found : latest ds key places = some i) : i ∈ places ∧ ∃ d, ds[i]? = some d ∧ d.key = key := by
  obtain ⟨member, defines⟩ := List.mem_filter.mp (List.mem_of_getLast? found)
  cases derived : ds[i]? with
  | none =>
    rw [derived] at defines
    cases defines
  | some d =>
    rw [derived] at defines
    exact ⟨member, d, rfl, beq_iff_eq.mp defines⟩

theorem isSome_latest (derived : ds[i]? = some d) (member : i ∈ places) : (latest ds d.key places).isSome = true := by
  rw [latest, List.getLast?_isSome]
  exact List.ne_nil_of_mem (List.mem_filter.mpr ⟨member, by simp [derived]⟩)

end Derivation

open Netlist.Derivation

/-- Derivations over a scope whose parameters feed one another without a cycle. Some of them may define the same
parameter. -/
structure Wiring (base : Scope) (feeds : Text → Text → Prop) (ds : List Derivation) : Prop where
  named : base.WellNamed
  acyclic : ∀ x, ¬ TransGen feeds x x
  steady : ∀ d ∈ ds, base.Steady d.text d.names
  feeding : ∀ d ∈ ds, ∀ x, d.Reads x → feeds x d.key

theorem Wiring.subset {base : Scope} {feeds : Text → Text → Prop} {ds more : List Derivation} (wiring : Wiring base feeds more)
    (inside : ∀ d ∈ ds, d ∈ more) : Wiring base feeds ds where
  named := wiring.named
  acyclic := wiring.acyclic
  steady d member := wiring.steady d (inside d member)
  feeding d member := wiring.feeding d (inside d member)

namespace Session

/-- The places of the registrations whose callbacks run in a course, in the order in which they are evaluated. -/
def Course.fires : Course → List Nat
  | ends | broken .. => []
  | passed _ next => next.fires
  | fired place inner next => place :: (inner.fires ++ next.fires)
  | sets inner next => inner.fires ++ next.fires

/-- The course of a callback that assigns the value of its expression. -/
theorem Happens.of_assigning {d : Derivation} {s s' : Session} {course : Course}
    (happens : Happens (.perform d.registration.script) s course (.ok ()) s') :
    ∃ v w inner, (s.scope.evaluate none d.text s.world).1 = .ok v ∧ course = .sets inner .ends ∧
      Happens (.set d.name v) { s with world := w } inner (.ok ()) s' := by
  cases happens with
  | @steps _ _ _ s₁ _ _ _ step later =>
    cases step with
    | @evaluate _ _ _ _ outcome evaluated =>
      obtain ⟨w, rfl⟩ : ∃ w, s₁ = { s with world := w } := ⟨_, (congrArg Prod.snd evaluated.apply).symm⟩
      have value := congrArg Prod.fst evaluated.apply
      rcases outcome with e | v
      · cases (later : Happens (.perform (.fail e)) _ _ _ _) with
        | steps step => cases step
      · cases (later : Happens (.perform (Script.assign d.name v)) _ _ _ _) with
        | steps step => cases step
        | @sets _ _ _ _ s₂ _ inner _ ended _ o call returned later =>
          rcases o with e | ⟨⟩
          · cases (later : Happens (.perform (.fail e)) _ _ _ _) with
            | steps step => cases step
          · cases (later : Happens (.perform .done) _ _ _ _) with
            | steps step => cases step
            | done =>
              obtain rfl : ended = .ok () := by rcases ended with (e | _ | _) | ⟨⟩ <;> cases returned; rfl
              exact ⟨v, w, inner, value, rfl, call⟩

/-- What turns bring about of registrations that read a parameter with the given folded name: the places where
callbacks run are downstream of it and closed under what reads what changes, and of several definitions of a
parameter the one that is refreshed last is up to date. -/
structure Visited (feeds : Text → Text → Prop) (ds : List Derivation) (key : Text) (turns : List (Registration × Nat))
    (fires : List Nat) (s s' : Session) : Prop where
  changes : Changes (fun x => (latest ds x fires).isSome = true) s s'
  own : ∀ turn ∈ turns, turn.2 ∈ fires
  below : ∀ i ∈ fires, ∃ d x, ds[i]? = some d ∧ d.Reads x ∧ ReflTransGen feeds key x
  closed : ∀ x, (latest ds x fires).isSome = true → ∀ i d, ds[i]? = some d → d.Reads x → i ∈ fires
  keeps : ∀ x i d, latest ds x fires = some i → ds[i]? = some d → s'.Keeps d

variable {base : Scope} {feeds : Text → Text → Prop} {ds : List Derivation} {key : Text} {s s' : Session}
  {turns : List (Registration × Nat)} {fires : List Nat}

theorem over_stored (fits : base.Over s.scope) (name : Text) (v : Float) : base.Over (s.stored name v).scope :=
  ⟨fits.ancestors, fits.functions⟩

/-- A parameter that is not refreshed stays up to date, as what it reads would have refreshed it. -/
theorem Visited.keeps_of (visited : Visited feeds ds key turns fires s s') (wiring : Wiring base feeds ds)
    (fits : base.Over s.scope) {i : Nat} {d : Derivation} (derived : ds[i]? = some d) (keeps : s.Keeps d)
    (silent : latest ds d.key fires = none) : s'.Keeps d := by
  refine keeps.of_steady wiring.named (wiring.steady d (List.mem_of_getElem? derived)) fits visited.changes (by simp [silent]) ?_
  intro x reads touched
  have fired := isSome_latest derived (visited.closed x touched i d derived reads)
  rw [silent] at fired
  cases fired

/-- Nothing upstream of what is set is refreshed. -/
theorem Visited.upstream (visited : Visited feeds ds key turns fires s s') (wiring : Wiring base feeds ds) {x : Text}
    (above : ReflTransGen feeds x key) : latest ds x fires = none := by
  cases found : latest ds x fires with
  | none => rfl
  | some i =>
    obtain ⟨member, d, derived, rfl⟩ := of_latest found
    obtain ⟨d', y, derived', reads, path⟩ := visited.below i member
    obtain rfl : d = d' := Option.some.inj (derived.symm.trans derived')
    have feeding := wiring.feeding d (List.mem_of_getElem? derived) y reads
    exact absurd (TransGen.tail' (above.trans path) feeding) (wiring.acyclic d.key)

/-- A parameter that is set to the value of an expression keeps it while the readers of the parameter are refreshed. -/
theorem Visited.keeps_stored {d : Derivation} {v : Float} (visited : Visited feeds ds d.key turns fires (s.stored d.name v) s')
    (wiring : Wiring base feeds ds) (steady : base.Steady d.text d.names) (feeding : ∀ x, d.Reads x → feeds x d.key)
    (fits : base.Over s.scope) (value : ∃ w, (s.scope.evaluate none d.text w).1 = .ok v) : s'.Keeps d := by
  have stays (name : Text) (above : ReflTransGen feeds (foldCase name) d.key) :
      s'.scope.parameter? name = (s.stored d.name v).scope.parameter? name :=
    visited.changes.elsewhere name (by simp [visited.upstream wiring above])
  have fits' : base.Over s'.scope := (over_stored fits d.name v).trans visited.changes.fits
  refine keeps_of_stored wiring.named steady fits fits' value ?_ fun n inside => ?_
  · rw [stays d.name .refl]
    exact s.scope.parameter?_store_self d.name v
  · have feeds' : feeds (foldCase n) d.key := feeding _ (List.mem_map_of_mem inside)
    have apart : foldCase n ≠ foldCase d.name := by
      intro same
      rw [same] at feeds'
      exact wiring.acyclic d.key (.single feeds')
    rw [stays n (.single feeds')]
    exact s.scope.parameter?_store_other apart v

theorem mem_readers_of_reads (hosts : s.Hosts base ds) {name : Text} {i : Nat} {d : Derivation} (derived : ds[i]? = some d)
    (reads : d.Reads (foldCase name)) : ∃ r, (r, i) ∈ s.readers name := by
  obtain ⟨r, found, same⟩ := hosts.registration? derived
  have reader : foldCase name ∈ r.reads := show foldCase name ∈ ({ r with running := false } : Registration).reads from same ▸ reads
  exact ⟨r, mem_readers.mpr ⟨found, List.contains_iff_mem.mpr reader⟩⟩

theorem keeps_marked (wiring : Wiring base feeds ds) {d : Derivation} (member : d ∈ ds) (fits : base.Over s.scope)
    (keeps : s.Keeps d) (i : Nat) (running : Bool) : (s.marked i running).Keeps d :=
  keeps.of_steady wiring.named (wiring.steady d member) fits (changes_marked (fun _ => False) i running s) id fun _ _ => id

/-- A turn in which a callback has assigned the value of its expression, and the turns behind it. -/
theorem Visited.cons (wiring : Wiring base feeds ds) {i : Nat} {d : Derivation} {v : Float} {w : World}
    {s₁ s₂ : Session} {inner : List (Registration × Nat)} {fires fires' : List Nat} (derived : ds[i]? = some d)
    (reads : d.Reads key) (fits : base.Over s.scope) (start : s₁ = { s.marked i true with world := w })
    (value : ∃ w, (s₁.scope.evaluate none d.text w).1 = .ok v)
    (first : Visited feeds ds d.key inner fires (s₁.stored d.name v) s₂)
    (complete : ∀ j d', ds[j]? = some d' → d'.Reads d.key → j ∈ fires)
    (later : Visited feeds ds key turns fires' (s₂.marked i false) s') :
    Visited feeds ds key ((d.registration, i) :: turns) (i :: (fires ++ fires')) s s' := by
  have member : d ∈ ds := List.mem_of_getElem? derived
  have feeding : feeds key d.key := wiring.feeding d member key reads
  have split (x : Text) : latest ds x (i :: (fires ++ fires')) =
      (latest ds x fires').or ((latest ds x fires).or (latest ds x [i])) := by
    rw [← List.singleton_append, latest_append, latest_append, Option.or_assoc]
  have fits₁ : base.Over s₁.scope := by
    rw [start]
    exact ⟨fits.ancestors, fits.functions⟩
  have fits₂ : base.Over s₂.scope := (over_stored fits₁ d.name v).trans first.changes.fits
  have kept {j : Nat} {d' : Derivation} (derived : ds[j]? = some d') (keeps : s₂.Keeps d')
      (silent : latest ds d'.key fires' = none) : s'.Keeps d' :=
    later.keeps_of wiring ⟨fits₂.ancestors, fits₂.functions⟩ derived
      (keeps_marked wiring (List.mem_of_getElem? derived) fits₂ keeps i false) silent
  refine ⟨?_, ?_, ?_, ?_, ?_⟩
  · have starts : Changes (fun x => (latest ds x (i :: (fires ++ fires'))).isSome = true) s s₁ := by
      rw [start]
      exact ⟨⟨rfl, rfl⟩, fun _ _ => rfl⟩
    refine starts.trans (((changes_store s₁ d.name v).mono fun x here => ?_).trans ((first.changes.mono fun x fired => ?_).trans
      ((changes_marked _ i false s₂).trans (later.changes.mono fun x fired => ?_))))
    · subst here
      exact isSome_latest derived List.mem_cons_self
    · simp [split, fired]
    · simp [split, fired]
  · intro turn inside
    rcases List.mem_cons.mp inside with rfl | inside
    · exact List.mem_cons_self
    · exact List.mem_cons_of_mem _ (List.mem_append_right _ (later.own turn inside))
  · intro j inside
    rcases List.mem_cons.mp inside with rfl | inside
    · exact ⟨d, key, derived, reads, .refl⟩
    · rcases List.mem_append.mp inside with here | there
      · obtain ⟨d', x, derived', reads', path⟩ := first.below j here
        exact ⟨d', x, derived', reads', .head feeding path⟩
      · exact later.below j there
  · intro x fired j d' derived' reads'
    rw [split, Option.isSome_or, Option.isSome_or, Bool.or_eq_true, Bool.or_eq_true] at fired
    rcases fired with fired | fired | fired
    · exact List.mem_cons_of_mem _ (List.mem_append_right _ (later.closed x fired j d' derived' reads'))
    · exact List.mem_cons_of_mem _ (List.mem_append_left _ (first.closed x fired j d' derived' reads'))
    · obtain ⟨k, found⟩ := Option.isSome_iff_exists.mp fired
      obtain ⟨single, d'', derived'', rfl⟩ := of_latest found
      obtain rfl := List.mem_singleton.mp single
      obtain rfl : d = d'' := Option.some.inj (derived.symm.trans derived'')
      exact List.mem_cons_of_mem _ (List.mem_append_left _ (complete j d' derived' reads'))
  · intro x j d' found derived'
    rw [split, Option.or_eq_some_iff, Option.or_eq_some_iff] at found
    obtain found | ⟨silent, found⟩ := found
    · exact later.keeps x j d' found derived'
    · have key' : d'.key = x := by
        rcases found with found | ⟨_, found⟩ <;>
        · obtain ⟨_, d'', derived'', same⟩ := of_latest found
          obtain rfl : d' = d'' := Option.some.inj (derived'.symm.trans derived'')
          exact same
      subst key'
      refine kept derived' ?_ silent
      rcases found with found | ⟨_, found⟩
      · exact first.keeps _ j d' found derived'
      · obtain rfl := List.mem_singleton.mp (of_latest found).1
        obtain rfl : d = d' := Option.some.inj (derived.symm.trans derived')
        exact first.keeps_stored wiring (wiring.steady d member) (wiring.feeding d member) fits₁ value

/-- The induction is on the course, in which the callback of a turn has set its parameter. -/
theorem visited_of_visit (wiring : Wiring base feeds ds) {course : Course} (happens : Happens (.visit turns) s course (.ok ()) s')
    (hosts : s.Hosts base ds) (above : s.RunsAbove feeds ds key)
    (known : ∀ turn ∈ turns, s.scope.frame.registrations[turn.2]? = some turn.1 ∧ key ∈ turn.1.reads) :
    Visited feeds ds key turns course.fires s s' := by
  induction length : sizeOf course using Nat.strongRecOn generalizing course key turns s s' with
  | ind size ih =>
    cases happens with
    | ends =>
      exact ⟨⟨.refl _, fun _ _ => rfl⟩, nofun, nofun, nofun, nofun⟩
    | @passed r i turns _ _ next _ running later =>
      obtain ⟨⟨found, reads⟩, known⟩ := List.forall_mem_cons.mp known
      obtain ⟨d, derived, same⟩ := hosts.derivation? found
      have feeding := wiring.feeding d (List.mem_of_getElem? derived) key (show key ∈ d.registration.reads from same ▸ reads)
      rw [runs_eq found] at running
      exact absurd (.head' feeding (above i r d found running derived)) (wiring.acyclic key)
    | @fired r i turns _ s₂ _ inner next _ idle call later =>
      obtain ⟨⟨found, reads⟩, others⟩ := List.forall_mem_cons.mp known
      obtain ⟨d, derived, same⟩ := hosts.derivation? found
      have reads' : d.Reads key := show key ∈ d.registration.reads from same ▸ reads
      have feeding := wiring.feeding d (List.mem_of_getElem? derived) key reads'
      have stays := call.unmark found idle
      have rest : r = d.registration := by
        rw [runs_eq found] at idle
        rw [← same, ← idle]
      subst rest
      obtain ⟨v, w, inner, value, rfl, assigned⟩ := call.of_assigning
      cases assigned with
      | set visit =>
        have marked := hosts.marked i true
        have fits₁ := over_stored (s := { s.marked i true with world := w }) marked.fits d.name v
        have smaller : sizeOf inner < size ∧ sizeOf next < size := by
          rw [← length, Course.fired.sizeOf_spec, Course.sets.sizeOf_spec]
          omega
        have first := ih (sizeOf inner) smaller.1 visit ⟨fits₁, marked.registrations⟩ (above.marked derived feeding)
          (fun turn inside => (mem_readers.mp inside).imp_right List.contains_iff_mem.mp) rfl
        have fits₂ : base.Over s₂.scope := fits₁.trans first.changes.fits
        have above₂ : (s₂.marked i false).RunsAbove feeds ds key := fun j r d found => above j r d (stays ▸ found)
        have next := ih (sizeOf next) smaller.2 later
          ⟨⟨fits₂.ancestors, fits₂.functions⟩, stays ▸ hosts.registrations⟩ above₂
          (fun turn inside => stays ▸ others turn inside) rfl
        have complete (j : Nat) (d' : Derivation) (derived' : ds[j]? = some d') (reads : d'.Reads d.key) : j ∈ inner.fires := by
          obtain ⟨r', reader⟩ := mem_readers_of_reads marked derived' reads
          exact first.own (r', j) reader
        have whole := Visited.cons wiring (i := i) (w := w) derived reads' hosts.fits rfl ⟨_, value⟩ first complete next
        simpa [Course.fires] using whole

structure Rests (base : Scope) (ds : List Derivation) (s : Session) : Prop where
  hosts : s.Hosts base ds
  idle : ∀ r ∈ s.scope.frame.registrations, r.running = false

variable {course : Course} {name : Text} {v : Float}

theorem Hosts.quiet (hosts : s.Hosts base ds) : s.Quiet := by
  intro r member v
  obtain ⟨i, found⟩ := List.getElem?_of_mem member
  obtain ⟨d, _, same⟩ := hosts.derivation? found
  rw [show r.callback = Script.assign d.name from congrArg Registration.callback same]
  exact quiet_assign d.name v

theorem Hosts.exists_happens (hosts : s.Hosts base ds) (ok : setWithin s.depth name v s = (.ok (), s')) :
    ∃ course, Happens (.set name v) s course (.ok ()) s' := by
  obtain ⟨course, outcome, s₁, happens⟩ := concludes_set hosts.quiet name v
  have same : setWithin s.depth name v s = (outcome, s₁) := happens.setWithin_eq (Nat.le_add_right _ _)
  obtain ⟨rfl, rfl⟩ := Prod.mk.inj (same.symm.trans ok)
  exact ⟨course, happens⟩

theorem Rests.visited (rests : s.Rests base ds) (wiring : Wiring base feeds ds)
    (happens : Happens (.set name v) s course (.ok ()) s') :
    Visited feeds ds (foldCase name) (s.readers name) course.fires (s.stored name v) s' := by
  cases happens with
  | set visit =>
    refine visited_of_visit wiring visit ⟨over_stored rests.hosts.fits name v, rests.hosts.registrations⟩
      (fun i r d found running _ => ?_) fun turn inside => (mem_readers.mp inside).imp_right List.contains_iff_mem.mp
    cases (rests.idle r (List.mem_of_getElem? found)).symm.trans running

theorem Rests.after (rests : s.Rests base ds) (wiring : Wiring base feeds ds)
    (happens : Happens (.set name v) s course (.ok ()) s') : s'.Rests base ds := by
  have stays := happens.registrations trivial rfl
  have fits := (over_stored rests.hosts.fits name v).trans (rests.visited wiring happens).changes.fits
  exact ⟨⟨fits, stays ▸ rests.hosts.registrations⟩, stays ▸ rests.idle⟩

/-! ### Parameters set one after another -/

/-- How parameters are set one after another, with the places of what is refreshed meanwhile, in its order. -/
inductive Refreshed : List (Text × Float) → Session → List Nat → Session → Prop
  | nil (s : Session) : Refreshed [] s [] s
  | cons {name : Text} {v : Float} {sets : List (Text × Float)} {s s₁ s' : Session} {course : Course} {fires : List Nat}
      (first : Happens (.set name v) s course (.ok ()) s₁) (later : Refreshed sets s₁ fires s') :
      Refreshed ((name, v) :: sets) s (course.fires ++ fires) s'

variable {sets : List (Text × Float)}

theorem Rests.exists_refreshed (rests : s.Rests base ds) (wiring : Wiring base feeds ds)
    (ok : Change.performAll (sets.map fun set => .set set.1 set.2) s = (.ok (), s')) : ∃ fires, Refreshed sets s fires s' := by
  induction sets generalizing s with
  | nil =>
    obtain rfl : s = s' := congrArg Prod.snd ok
    exact ⟨[], .nil s⟩
  | cons first sets ih =>
    obtain ⟨⟨⟩, s₁, performed, rest⟩ := Eval.bind_ok ok
    obtain ⟨course, happens⟩ := rests.hosts.exists_happens ((set_eq first.1 first.2 s).symm.trans performed)
    obtain ⟨fires, later⟩ := ih (rests.after wiring happens) rest
    exact ⟨course.fires ++ fires, .cons happens later⟩

/-- What is refreshed reads something downstream of what is set. -/
theorem Refreshed.downstream (refreshed : Refreshed sets s fires s') (wiring : Wiring base feeds ds) (rests : s.Rests base ds)
    {i : Nat} (fired : i ∈ fires) :
    ∃ set ∈ sets, ∃ d x, ds[i]? = some d ∧ d.Reads x ∧ ReflTransGen feeds (foldCase set.1) x := by
  induction refreshed with
  | nil => cases fired
  | cons first later ih =>
    rcases List.mem_append.mp fired with here | there
    · obtain ⟨d, x, found⟩ := (rests.visited wiring first).below i here
      exact ⟨_, List.mem_cons_self, d, x, found⟩
    · obtain ⟨set, member, found⟩ := ih (rests.after wiring first) there
      exact ⟨set, List.mem_cons_of_mem _ member, found⟩

/-- Of a parameter that is not set itself the definition that is refreshed last is up to date, or the one that was
before if none is refreshed. -/
theorem Refreshed.keeps (refreshed : Refreshed sets s fires s') (wiring : Wiring base feeds ds) (rests : s.Rests base ds)
    (others : ∀ set ∈ sets, foldCase set.1 ≠ key) {i : Nat} {d : Derivation} (derived : ds[i]? = some d) (same : d.key = key)
    (keeps : s.Keeps d) : ∃ d', ds[(latest ds key fires).getD i]? = some d' ∧ d'.key = key ∧ s'.Keeps d' := by
  induction refreshed generalizing i d with
  | nil => exact ⟨d, derived, same, keeps⟩
  | @cons name v sets s s₁ s' course fires first later ih =>
    have visited := rests.visited wiring first
    have rests' := rests.after wiring first
    obtain ⟨other, others⟩ := List.forall_mem_cons.mp others
    rw [latest_append, Option.getD_or]
    cases found : latest ds key course.fires with
    | some j =>
      obtain ⟨_, d', derived', same'⟩ := of_latest found
      exact ih rests' others derived' same' (visited.keeps key j d' found derived')
    | none =>
      refine ih rests' others derived same (visited.keeps_of wiring (over_stored rests.hosts.fits name v) derived ?_ (same ▸ found))
      refine keeps.of_steady wiring.named (wiring.steady d (List.mem_of_getElem? derived)) rests.hosts.fits (changes_store s name v)
        (fun here => other (here.symm.trans same)) fun x reads here => ?_
      -- A definition that reads what is set is refreshed.
      subst here
      obtain ⟨r, reader⟩ := mem_readers_of_reads rests.hosts derived reads
      have fired := isSome_latest derived (visited.own (r, i) reader)
      rw [same, found] at fired
      cases fired

theorem Refreshed.unchanged (refreshed : Refreshed sets s fires s') (wiring : Wiring base feeds ds) (rests : s.Rests base ds)
    {p : Text} (apart : ∀ set ∈ sets, ¬ ReflTransGen feeds (foldCase set.1) (foldCase p)) :
    s'.scope.parameter? p = s.scope.parameter? p := by
  induction refreshed with
  | nil => rfl
  | @cons name v sets s s₁ s' course fires first later ih =>
    have visited := rests.visited wiring first
    obtain ⟨other, apart⟩ := List.forall_mem_cons.mp apart
    have differ : foldCase p ≠ foldCase name := fun same => other (same ▸ .refl)
    have silent : latest ds (foldCase p) course.fires = none := by
      cases found : latest ds (foldCase p) course.fires with
      | none => rfl
      | some i =>
        obtain ⟨fired, d, derived, same⟩ := of_latest found
        obtain ⟨d', x, derived', reads, path⟩ := visited.below i fired
        obtain rfl : d = d' := Option.some.inj (derived.symm.trans derived')
        exact absurd (path.tail (same ▸ wiring.feeding d (List.mem_of_getElem? derived) x reads)) other
    calc s'.scope.parameter? p
      _ = s₁.scope.parameter? p := ih (rests.after wiring first) apart
      _ = (s.stored name v).scope.parameter? p := visited.changes.elsewhere p (by simp [silent])
      _ = s.scope.parameter? p := s.scope.parameter?_store_other differ v

/-! ### Parameters defined again -/

/-- A definition is up to date as soon as it is made, whether there are others or not. -/
theorem Rests.derive {d : Derivation} {s₁ : Session} (rests : s.Rests base ds) (wiring : Wiring base feeds (ds ++ [d]))
    (derived : Session.derive d.name d.text s = (.ok v, s₁)) : s₁.Rests base (ds ++ [d]) ∧ s₁.Keeps d := by
  have smaller : Wiring base feeds ds := wiring.subset fun d' member => List.mem_append_left [d] member
  have latest : d ∈ ds ++ [d] := List.mem_append_right ds List.mem_cons_self
  obtain ⟨names, s₂, s₃, found, evaluated, set, rfl⟩ := derive_ok derived
  obtain rfl : names = d.names := by
    rw [rests.hosts.fits.freeNames, (wiring.steady d latest).1] at found
    exact (Except.ok.inj found).symm
  obtain ⟨value, w, rfl⟩ := evaluate_ok evaluated
  have rests₂ : Rests base ds { s with world := w } := ⟨⟨rests.hosts.fits, rests.hosts.registrations⟩, rests.idle⟩
  obtain ⟨course, happens⟩ := rests₂.hosts.exists_happens set
  have rests₃ := rests₂.after smaller happens
  have kept := (rests₂.visited smaller happens).keeps_stored smaller (wiring.steady d latest) (wiring.feeding d latest)
    rests.hosts.fits ⟨_, value⟩
  refine ⟨⟨rests₃.hosts.register d, idle_register rests₃.idle d⟩, ?_⟩
  have same : Changes (fun _ => False) s₃ { s₃ with scope := s₃.scope.register d.registration } :=
    ⟨⟨rfl, rfl⟩, fun _ _ => rfl⟩
  exact kept.of_steady wiring.named (wiring.steady d latest) rests₃.hosts.fits same id fun _ _ => id

/-- Of several definitions of a parameter the one decides that is refreshed last. In a scope whose dynamic
expressions all keep parameters up to date, with deterministic expressions and without a cycle, let a parameter
be defined, be it again, and others be set. Then it has the value of the definition that was refreshed last
meanwhile, or of the latest one if none was. That is the latest one if no earlier definition of the parameter
reads, directly or through others, what is set, and the parameter is unchanged if none of its definitions does. -/
theorem refreshed_last_decides {s s₁ s' : Session} {ds : List Derivation} {p t : Text} {names : FreeNames} {v : Float}
    {sets : List (Text × Float)} (named : s.scope.WellNamed)
    (registered : s.scope.frame.registrations = ds.map Derivation.registration)
    (steady : ∀ d ∈ ds, s.scope.Steady d.text d.names) (latest_steady : s.scope.Steady t names)
    (acyclic : ∀ x, ¬ TransGen (Feeds (ds ++ [⟨p, t, names⟩])) x x) (derived : Session.derive p t s = (.ok v, s₁))
    (others : ∀ set ∈ sets, foldCase set.1 ≠ foldCase p)
    (ok : Change.performAll (sets.map fun set => .set set.1 set.2) s₁ = (.ok (), s')) :
    let all := ds ++ [⟨p, t, names⟩]
    (∃ fires, Refreshed sets s₁ fires s' ∧
      ∃ d, all[(latest all (foldCase p) fires).getD ds.length]? = some d ∧ foldCase d.name = foldCase p ∧
        ∃ u, s'.scope.parameter? p = some u ∧ ∀ w, (s'.scope.evaluate none d.text w).1 = .ok u) ∧
    ((∀ d ∈ ds, foldCase d.name = foldCase p → ∀ x, d.Reads x → ∀ set ∈ sets, ¬ ReflTransGen (Feeds all) (foldCase set.1) x) →
      ∃ u, s'.scope.parameter? p = some u ∧ ∀ w, (s'.scope.evaluate none t w).1 = .ok u) ∧
    ((∀ set ∈ sets, ¬ ReflTransGen (Feeds all) (foldCase set.1) (foldCase p)) →
      s'.scope.parameter? p = s₁.scope.parameter? p) := by
  intro all
  let d : Derivation := ⟨p, t, names⟩
  have wiring : Wiring s.scope (Feeds all) all := by
    refine ⟨named, acyclic, fun d' member => ?_, fun d' member x reads => ⟨d', member, reads, rfl⟩⟩
    rcases List.mem_append.mp member with earlier | last
    · exact steady d' earlier
    · rcases List.mem_singleton.mp last with rfl
      exact latest_steady
  have start : s.Rests s.scope ds := by
    refine ⟨⟨.refl _, ?_⟩, ?_⟩
    · rw [registered, List.map_map]
      rfl
    · rw [registered]
      exact List.forall_mem_map.mpr fun d' _ => rfl
  obtain ⟨rests, keeps⟩ := Rests.derive (d := d) start wiring derived
  obtain ⟨fires, refreshed⟩ := rests.exists_refreshed wiring ok
  have place : all[ds.length]? = some d := List.getElem?_concat_length
  obtain ⟨d', derived', same, u, stored, value⟩ := refreshed.keeps wiring rests others place rfl keeps
  have stored' : s'.scope.parameter? p = some u := (s'.scope.parameter?_congr same).symm.trans stored
  refine ⟨⟨fires, refreshed, d', derived', same, u, stored', value⟩, fun apart => ?_, refreshed.unchanged wiring rests⟩
  have last : d' = d := by
    cases found : latest all (foldCase p) fires with
    | none =>
      rw [found] at derived'
      exact Option.some.inj (derived'.symm.trans place)
    | some i =>
      rw [found] at derived'
      obtain ⟨set, member, d'', x, derived'', reads, path⟩ := refreshed.downstream wiring rests (of_latest found).1
      obtain rfl : d' = d'' := Option.some.inj (derived'.symm.trans derived'')
      rcases List.mem_append.mp (List.mem_of_getElem? derived') with earlier | last
      · exact absurd path (apart d' earlier same x reads set member)
      · exact List.mem_singleton.mp last
  subst last
  exact ⟨u, stored', value⟩

/-- A parameter that is defined twice, and a setting that its second definition alone reads. -/
theorem refreshed_last_decides_twice :
    let d : Derivation := ⟨chars "p", chars "a", ⟨[chars "a"], []⟩⟩
    let frame : Frame := { parameters := [(chars "a", 1), (chars "b", 2), (chars "p", 1)], registrations := [d.registration] }
    let s : Session := { scope := { dialect := .hspice, frame } }
    ∃ s₁ s' v, Session.derive (chars "P") (chars "b") s = (.ok v, s₁) ∧
      Change.performAll [.set (chars "B") 5] s₁ = (.ok (), s') ∧
      ∃ u, s'.scope.parameter? (chars "P") = some u ∧ ∀ w, (s'.scope.evaluate none (chars "b") w).1 = .ok u := by
  intro d frame s
  have defined : (Session.derive (chars "P") (chars "b") s).1.isOk = true := by decide +kernel
  have fine : (Change.performAll [.set (chars "B") 5] (Session.derive (chars "P") (chars "b") s).2).1.isOk = true := by
    decide +kernel
  rcases derived : Session.derive (chars "P") (chars "b") s with ⟨fault | v, s₁⟩
  · rw [derived] at defined
    cases defined
  rw [derived] at fine
  rcases ok : Change.performAll [.set (chars "B") 5] s₁ with ⟨fault | _, s'⟩
  · rw [ok] at fine
    cases fine
  have free : s.scope.freeNames (chars "a") = .ok ⟨[chars "a"], []⟩ ∧ s.scope.freeNames (chars "b") = .ok ⟨[chars "b"], []⟩ := by
    decide +kernel
  have steady {t : Text} {n : Text} (found : s.scope.freeNames t = .ok ⟨[n], []⟩) : s.scope.Steady t ⟨[n], []⟩ :=
    ⟨found, fun _ absent => nomatch absent⟩
  have apart : foldCase (chars "a") ≠ foldCase (chars "p") ∧ foldCase (chars "b") ≠ foldCase (chars "p") ∧
      foldCase (chars "B") ≠ foldCase (chars "a") ∧ foldCase (chars "B") ≠ foldCase (chars "P") ∧
      foldCase (chars "P") = foldCase (chars "p") := by decide +kernel
  obtain ⟨a, b, first, last, same⟩ := apart
  let e : Derivation := ⟨chars "P", chars "b", ⟨[chars "b"], []⟩⟩
  have step {x y : Text} (feeds : Feeds [d, e] x y) : x ≠ foldCase (chars "p") ∧ y = foldCase (chars "p") := by
    obtain ⟨d', member, reads, rfl⟩ := feeds
    rcases List.mem_pair.mp member with rfl | rfl
    · exact ⟨List.mem_singleton.mp reads ▸ a, rfl⟩
    · exact ⟨List.mem_singleton.mp reads ▸ b, same⟩
  have path {x y : Text} (path : TransGen (Feeds [d, e]) x y) : x ≠ foldCase (chars "p") ∧ y = foldCase (chars "p") := by
    induction path with
    | single feeds => exact step feeds
    | tail _ feeds ih => exact ⟨ih.1, (step feeds).2⟩
  have fits : (Scope.empty .hspice).Over s.scope := ⟨rfl, rfl⟩
  have registered : s.scope.frame.registrations = [d].map Derivation.registration := rfl
  have performed : Change.performAll ([(chars "B", (5 : Float))].map fun set => .set set.1 set.2) s₁ = (.ok (), s') := ok
  have decides := refreshed_last_decides (fits.wellNamed (Scope.wellNamed_empty .hspice)) registered
    (fun d' member => List.mem_singleton.mp member ▸ steady free.1) (steady free.2) (fun x cycle => (path cycle).1 (path cycle).2)
    derived (fun set member => List.mem_singleton.mp member ▸ last) performed
  refine ⟨s₁, s', v, rfl, ok, decides.2.1 fun d' member _ x reads set inside feeds => ?_⟩
  obtain rfl := List.mem_singleton.mp member
  obtain rfl := List.mem_singleton.mp inside
  obtain rfl := List.mem_singleton.mp reads
  rcases reflTransGen_iff_eq_or_transGen.mp feeds with here | there
  · exact first here.symm
  · exact a (path there).2

/-- A superseded definition comes back when what it reads is set. -/
theorem superseded_decides :
    let changes : List Change := [.set (chars "a") 1, .set (chars "b") 2, .derive (chars "p") (chars "a"),
      .derive (chars "P") (chars "b"), .set (chars "a") 5]
    ∃ s', Change.performAll changes { scope := Scope.empty .hspice } = (.ok (), s') ∧
      ∀ u, s'.scope.parameter? (chars "p") = some u → (s'.scope.evaluate none (chars "b") {}).1 ≠ .ok u := by
  intro changes
  have ends : (Change.performAll changes { scope := Scope.empty .hspice }).1.isOk = true := by decide +kernel
  have large : ((Change.performAll changes { scope := Scope.empty .hspice }).2.scope.parameter? (chars "p")).any
      (decide <| · < 3) = false := by decide +kernel
  have small : ((Change.performAll changes { scope := Scope.empty .hspice }).2.scope.evaluate none (chars "b") {}).1.toOption.any
      (decide <| · < 3) = true := by decide +kernel
  rcases ok : Change.performAll changes { scope := Scope.empty .hspice } with ⟨fault | ⟨⟩, s'⟩
  · rw [ok] at ends
    cases ends
  · rw [ok] at large small
    refine ⟨s', rfl, fun u stored value => ?_⟩
    rw [stored] at large
    rw [value] at small
    exact absurd (large.symm.trans small) Bool.false_ne_true

end Session

end Netlist
