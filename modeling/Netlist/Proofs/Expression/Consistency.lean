import Netlist.Proofs.Expression.Refresh

/-!
Sequences of changes to a scope. Whatever is set and derived, in whatever order, a parameter that is
defined by an expression has the value of its expression after each change.
-/
namespace Netlist
open Relation

inductive Change where
  | set (name : Text) (value : Float)
  | derive (name t : Text)

namespace Change

def name : Change → Text
  | set name _ | derive name _ => name

def perform : Change → Update Unit
  | set name value => Session.set name value
  | derive name t => do let _ ← Session.derive name t

def performAll : List Change → Update Unit
  | [] => return
  | change :: rest => do
    change.perform
    performAll rest

def Feeds (scope : Scope) (changes : List Change) (x y : Text) : Prop :=
  ∃ p t names, derive p t ∈ changes ∧ scope.freeNames t = .ok names ∧ x ∈ names.parameters.map foldCase ∧ y = foldCase p

end Change

namespace Session
variable {base : Scope} {feeds : Text → Text → Prop} {ds : List Derivation} {s s' : Session}

structure Settled (base : Scope) (ds : List Derivation) (s : Session) : Prop where
  hosts : s.Hosts base ds
  idle : ∀ r ∈ s.scope.frame.registrations, r.running = false
  keeps : ∀ d ∈ ds, s.Keeps d

theorem Settled.inWorld (settled : s.Settled base ds) (w : World) : Settled base ds { s with world := w } :=
  ⟨⟨settled.hosts.fits, settled.hosts.registrations⟩, settled.idle, settled.keeps⟩

theorem Settled.runsAbove (settled : s.Settled base ds) (key : Text) : s.RunsAbove feeds ds key := by
  intro i r d found running _
  rw [settled.idle r (List.mem_of_getElem? found)] at running
  cases running

theorem Settled.sets (settled : s.Settled base ds) (network : Network base feeds ds) {name : Text} {v : Float} {depth : Nat}
    (ok : setWithin depth name v s = (.ok (), s')) : Sets feeds ds name v s s' :=
  setter_setWithin network depth name v s s' settled.hosts (settled.runsAbove _) ok

theorem settled_set (network : Network base feeds ds) (settled : s.Settled base ds) {name : Text} {v : Float}
    (other : ∀ d ∈ ds, foldCase name ≠ d.key) {depth : Nat} (ok : setWithin depth name v s = (.ok (), s')) :
    s'.Settled base ds := by
  have sets := settled.sets network ok
  exact ⟨settled.hosts.of_changes sets.changes sets.registrations, sets.registrations ▸ settled.idle,
    fun d member => sets.keeps d member (.inl ⟨settled.keeps d member, (other d member).symm⟩)⟩

/-- A derivation that came to an end has stored the value of its expression and registered its reads. -/
theorem derive_ok {name t : Text} {v : Float} (ok : derive name t s = (.ok v, s')) :
    ∃ names s₁ s₂, s.scope.freeNames t = .ok names ∧ evaluate t s = (.ok v, s₁) ∧
      setWithin s.depth name v s₁ = (.ok (), s₂) ∧
      s' = { s₂ with scope := s₂.scope.register (Derivation.registration ⟨name, t, names⟩) } := by
  obtain ⟨_, s₀, got, ok⟩ := Eval.bind_ok ok
  cases got
  obtain ⟨value, s₁, evaluated, ok⟩ := Eval.bind_ok ok
  obtain ⟨reads, s₂, read, ok⟩ := Eval.bind_ok ok
  obtain ⟨⟨⟩, s₃, set, ok⟩ := Eval.bind_ok ok
  obtain ⟨⟨⟩, s₄, registered, ok⟩ := Eval.bind_ok ok
  cases ok
  obtain ⟨-, w, rfl⟩ := evaluate_ok evaluated
  unfold readsOf at read
  cases found : s.scope.freeNames t with
  | error f =>
    rw [found] at read
    cases read
  | ok names =>
    rw [found] at read
    cases read
    exact ⟨names, _, s₃, rfl, evaluated, set, (congrArg Prod.snd registered).symm⟩

theorem Hosts.register (hosts : s.Hosts base ds) (d : Derivation) :
    Hosts base (ds ++ [d]) { s with scope := s.scope.register d.registration } := by
  refine ⟨hosts.fits.trans ⟨rfl, rfl⟩, ?_⟩
  change (s.scope.frame.registrations ++ [d.registration]).map _ = _
  rw [List.map_append, List.map_append, hosts.registrations]
  rfl

theorem idle_register (idle : ∀ r ∈ s.scope.frame.registrations, r.running = false) (d : Derivation) :
    ∀ r ∈ s.scope.frame.registrations ++ [d.registration], r.running = false := by
  intro r member
  rcases List.mem_append.mp member with earlier | latest
  · exact idle r earlier
  · rcases List.mem_singleton.mp latest with rfl
    rfl

/-- A derivation is up to date as soon as it is made. -/
theorem settled_derive {d : Derivation} (network : Network base feeds (ds ++ [d])) (settled : s.Settled base ds)
    (other : ∀ d' ∈ ds, foldCase d.name ≠ d'.key) {value : Float} {depth : Nat} {s₁ s₃ : Session}
    (evaluated : evaluate d.text s = (.ok value, s₁)) (stored : setWithin depth d.name value s₁ = (.ok (), s₃)) :
    Settled base (ds ++ [d]) { s₃ with scope := s₃.scope.register d.registration } := by
  have smaller := network.subset fun d' (member : d' ∈ ds) => List.mem_append_left [d] member
  have latest : d ∈ ds ++ [d] := List.mem_append_right ds List.mem_cons_self
  obtain ⟨valued, w, rfl⟩ := evaluate_ok evaluated
  have settled₁ := settled.inWorld w
  have sets := settled₁.sets smaller stored
  have settled₃ := settled_set smaller settled₁ other stored
  have fits₃ := settled₃.hosts.fits
  have same : Changes (fun _ => False) s₃ { s₃ with scope := s₃.scope.register d.registration } :=
    ⟨⟨rfl, rfl⟩, fun _ _ => rfl⟩
  refine ⟨settled₃.hosts.register d, idle_register settled₃.idle d, fun d' member => ?_⟩
  refine Keeps.of_changes network ?_ member fits₃ same id fun _ _ => id
  rcases List.mem_append.mp member with earlier | last
  · exact settled₃.keeps d' earlier
  · rcases List.mem_singleton.mp last with rfl
    exact sets.keeps_self network latest settled₁.hosts.fits ⟨_, valued⟩

end Session

namespace Change
variable {base : Scope} {s s' : Session}

theorem settled_performAll {feeds : Text → Text → Prop} {changes : List Change} {ds : List Derivation}
    (network : Network base feeds ds) (settled : s.Settled base ds)
    (once : changes.Pairwise fun c c' => ∀ p t, c = .derive p t → foldCase c'.name ≠ foldCase p)
    (other : ∀ d ∈ ds, ∀ c ∈ changes, foldCase c.name ≠ d.key)
    (deterministic : ∀ p t names, .derive p t ∈ changes → base.freeNames t = .ok names → base.Steady t names)
    (feeding : ∀ x y, Feeds base changes x y → feeds x y)
    (ok : performAll changes s = (.ok (), s')) :
    ∃ more, Network base feeds more ∧ s'.Settled base more ∧ (∀ d ∈ ds, d ∈ more) ∧
      ∀ p t, .derive p t ∈ changes → ∃ d ∈ more, d.name = p ∧ d.text = t := by
  induction changes generalizing ds s with
  | nil =>
    obtain rfl : s = s' := congrArg Prod.snd ok
    exact ⟨ds, network, settled, fun _ => id, fun _ _ absent => nomatch absent⟩
  | cons change changes ih =>
    obtain ⟨⟨⟩, s₁, performed, rest⟩ := Eval.bind_ok ok
    obtain ⟨first, later⟩ := List.pairwise_cons.mp once
    have other' (d : Derivation) (member : d ∈ ds) (c : Change) (inside : c ∈ changes) : foldCase c.name ≠ d.key :=
      other d member c (List.mem_cons_of_mem _ inside)
    have deterministic' (p t : Text) (names : FreeNames) (inside : .derive p t ∈ changes) :=
      deterministic p t names (List.mem_cons_of_mem _ inside)
    have feeding' (x y : Text) : Feeds base changes x y → feeds x y := fun ⟨p, t, names, inside, found⟩ =>
      feeding x y ⟨p, t, names, List.mem_cons_of_mem _ inside, found⟩
    cases change with
    | set name v =>
      obtain ⟨_, _, got, set⟩ := Eval.bind_ok performed
      cases got
      have settled := Session.settled_set network settled (fun d member => other d member _ List.mem_cons_self) set
      obtain ⟨more, network, settled, kept, derived⟩ := ih network settled later other' deterministic' feeding' rest
      refine ⟨more, network, settled, kept, fun p t member => ?_⟩
      rcases List.mem_cons.mp member with no | inside
      · cases no
      · exact derived p t inside
    | derive p t =>
      obtain ⟨v, _, performed, done⟩ := Eval.bind_ok performed
      cases done
      obtain ⟨names, s₂, s₃, found, evaluated, set, rfl⟩ := Session.derive_ok performed
      rw [settled.hosts.fits.freeNames] at found
      have here : Change.derive p t ∈ Change.derive p t :: changes := List.mem_cons_self
      have differ (d : Derivation) (member : d ∈ ds) : foldCase p ≠ d.key := other d member _ here
      let d : Derivation := ⟨p, t, names⟩
      have larger : Network base feeds (ds ++ [d]) := network.concat (deterministic p t names here found)
        (fun x reads => feeding x d.key ⟨p, t, names, here, found, reads, rfl⟩) differ
      have settled := Session.settled_derive larger settled differ evaluated set
      have apart (d' : Derivation) (member : d' ∈ ds ++ [d]) (c : Change) (inside : c ∈ changes) : foldCase c.name ≠ d'.key := by
        rcases List.mem_append.mp member with earlier | latest
        · exact other' d' earlier c inside
        · rcases List.mem_singleton.mp latest with rfl
          exact first c inside p t rfl
      obtain ⟨more, network, settled, kept, derived⟩ := ih larger settled later apart deterministic' feeding' rest
      refine ⟨more, network, settled, fun d' member => kept d' (List.mem_append_left _ member), fun p' t' member => ?_⟩
      rcases List.mem_cons.mp member with same | inside
      · cases same
        exact ⟨d, kept d (List.mem_append_right _ List.mem_cons_self), rfl, rfl⟩
      · exact derived p' t' inside

/-- Derived parameters stay consistent. After any changes that came to an end, a parameter that one of
them defined by an expression has the value of its expression, given that parameters are defined so
only once and not changed afterwards, that expressions mention deterministic functions only, and that
none reads, be it by way of others, the parameter that it defines. -/
theorem performAll_consistent {changes : List Change} (named : s.scope.WellNamed)
    (fresh : s.scope.frame.registrations = [])
    (once : changes.Pairwise fun c c' => ∀ p t, c = .derive p t → foldCase c'.name ≠ foldCase p)
    (deterministic : ∀ p t names, .derive p t ∈ changes → s.scope.freeNames t = .ok names →
      ∀ name ∈ names.functions, ∀ f, s.scope.function? name = some f → f.Deterministic)
    (acyclic : ∀ x, ¬ TransGen (Feeds s.scope changes) x x)
    (ok : performAll changes s = (.ok (), s')) {p t : Text} (derived : .derive p t ∈ changes) :
    ∃ v, s'.scope.parameter? p = some v ∧ ∀ w, (s'.scope.evaluate none t w).1 = .ok v := by
  have network : Network s.scope (Feeds s.scope changes) [] :=
    ⟨named, acyclic, fun _ absent => (nomatch absent), fun _ absent => (nomatch absent), fun _ absent => nomatch absent⟩
  have settled : s.Settled s.scope [] :=
    ⟨⟨.refl _, by rw [fresh]; rfl⟩, by rw [fresh]; exact fun _ absent => (nomatch absent), fun _ absent => nomatch absent⟩
  obtain ⟨more, -, settled, -, all⟩ := settled_performAll network settled once (fun _ absent => nomatch absent)
    (fun p t names member found => ⟨found, deterministic p t names member found⟩) (fun _ _ => id) ok
  obtain ⟨d, member, rfl, rfl⟩ := all p t derived
  exact settled.keeps d member

/-- A parameter that reads another one twice, by itself and by way of a third one. -/
theorem performAll_consistent_diamond :
    let changes := [set (chars "x") 1, derive (chars "double") (chars "x+x"), derive (chars "combined") (chars "x*double"),
      set (chars "x") 3]
    ∃ s', performAll changes { scope := Scope.empty .hspice } = (.ok (), s') ∧
      ∃ v, s'.scope.parameter? (chars "combined") = some v ∧ ∀ w, (s'.scope.evaluate none (chars "x*double") w).1 = .ok v := by
  intro changes
  have ends : (performAll changes { scope := Scope.empty .hspice }).1.isOk = true := by decide +kernel
  rcases ok : performAll changes { scope := Scope.empty .hspice } with ⟨fault | ⟨⟩, s'⟩
  · rw [ok] at ends
    cases ends
  · have once : changes.Pairwise fun c c' => ∀ p t, c = .derive p t → foldCase c'.name ≠ foldCase p := by
      have double : foldCase (chars "combined") ≠ foldCase (chars "double") ∧ foldCase (chars "x") ≠ foldCase (chars "double") := by
        decide +kernel
      have combined : foldCase (chars "x") ≠ foldCase (chars "combined") := by decide +kernel
      simp [changes, Change.name, double, combined]
    have shorter : ∀ {x y}, Feeds (Scope.empty .hspice) changes x y → x.length < y.length := by
      rintro x y ⟨p, t, names, member, found, reads, rfl⟩
      simp only [changes, List.mem_cons, List.not_mem_nil, or_false, reduceCtorEq, false_or, derive.injEq] at member
      rcases member with ⟨rfl, rfl⟩ | ⟨rfl, rfl⟩
      · have free : (Scope.empty .hspice).freeNames (chars "x+x") = .ok ⟨[chars "x"], []⟩ := by decide +kernel
        rw [free] at found
        obtain rfl := Except.ok.inj found
        rcases List.mem_singleton.mp reads with rfl
        decide +kernel
      · have free : (Scope.empty .hspice).freeNames (chars "x*double") = .ok ⟨[chars "double", chars "x"], []⟩ := by
          decide +kernel
        rw [free] at found
        obtain rfl := Except.ok.inj found
        rcases List.mem_pair.mp reads with rfl | rfl <;> decide +kernel
    have longer : ∀ {x y}, TransGen (Feeds (Scope.empty .hspice) changes) x y → x.length < y.length := by
      intro x y path
      induction path with
      | single step => exact shorter step
      | tail _ step ih => exact ih.trans (shorter step)
    have derived : Change.derive (chars "combined") (chars "x*double") ∈ changes := by simp [changes]
    exact ⟨s', rfl, performAll_consistent (s := { scope := Scope.empty .hspice }) (Scope.wellNamed_empty _) rfl once
      (fun _ _ _ _ _ _ _ _ visible => nomatch visible) (fun x cycle => lt_irrefl _ (longer cycle)) ok derived⟩

end Change

end Netlist
