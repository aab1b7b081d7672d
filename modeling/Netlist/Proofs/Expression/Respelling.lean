import Netlist.Proofs.Expression.Containment

/-!
Parameters under names in other letters. Sessions in which parameters have been set and derived under names of
the same folding differ in nothing but the names that callbacks set, and no operation can tell them apart.
-/
namespace Netlist.Session

open List (Forall₂)

variable {α : Type} {s s' : Session} {m n : Update α} {name other : Text} {set : Text → Float → Update Unit}
  {r r' : Registration} {rs rs' : List Registration} {i depth : Nat}

/-! ### Names with the same folding -/

theorem store_congr (same : foldCase name = foldCase other) (scope : Scope) (v : Float) :
    scope.store name v = scope.store other v := by
  unfold Scope.store Named.insert
  rw [same]

theorem affected_congr (same : foldCase name = foldCase other) (scope : Scope) : affected scope name = affected scope other := by
  unfold affected Registration.readsName
  rw [same]

theorem setWithin_congr (same : foldCase name = foldCase other) (depth : Nat) (v : Float) :
    setWithin depth name v = setWithin depth other v := by
  cases depth with
  | zero => rfl
  | succ depth =>
    unfold setWithin
    simp only [store_congr same, affected_congr same]

/-! ### Registrations -/

structure Interchangeable (r r' : Registration) : Prop where
  text : r'.text = r.text
  reads : r'.reads = r.reads
  running : r'.running = r.running
  callback : ∀ depth v, run (setWithin depth) (r'.callback v) = run (setWithin depth) (r.callback v)

theorem interchangeable_assign (same : foldCase name = foldCase other) (t : Text) (reads : List Text) :
    Interchangeable { text := t, reads, callback := Script.assign name } { text := t, reads, callback := Script.assign other } := by
  refine ⟨rfl, rfl, rfl, fun depth v => ?_⟩
  rw [run_assign, run_assign, setWithin_congr same]

theorem affected_registrations (same : Forall₂ Interchangeable rs rs') (name : Text) (first : Nat) :
    ((rs'.zipIdx first).filter (·.1.readsName name)).map (·.2) = ((rs.zipIdx first).filter (·.1.readsName name)).map (·.2) := by
  induction same generalizing first with
  | nil => rfl
  | @cons r r' _ _ here _ ih =>
    have reads : r'.readsName name = r.readsName name := by rw [Registration.readsName, Registration.readsName, here.reads]
    rw [List.zipIdx_cons, List.zipIdx_cons, List.filter_cons, List.filter_cons, reads]
    split
    · rw [List.map_cons, List.map_cons, ih]
    · exact ih _

theorem interchangeable_modify {f : Registration → Registration} (step : ∀ r r', Interchangeable r r' → Interchangeable (f r) (f r'))
    (same : Forall₂ Interchangeable rs rs') (i : Nat) : Forall₂ Interchangeable (rs.modify i f) (rs'.modify i f) := by
  induction same generalizing i with
  | nil => simp
  | cons here later ih =>
    cases i with
    | zero => exact .cons (step _ _ here) later
    | succ i => exact .cons here (ih i)

theorem interchangeable_getElem? (same : Forall₂ Interchangeable rs rs') (i : Nat) :
    (rs[i]? = none ∧ rs'[i]? = none) ∨ ∃ r r', rs[i]? = some r ∧ rs'[i]? = some r' ∧ Interchangeable r r' := by
  induction same generalizing i with
  | nil => exact .inl ⟨rfl, rfl⟩
  | cons here _ ih =>
    cases i with
    | zero => exact .inr ⟨_, _, rfl, rfl, here⟩
    | succ i => exact ih i

/-! ### Sessions -/

inductive Alike (s : Session) : Session → Prop
  | intro (registrations : List Registration) (same : Forall₂ Interchangeable s.scope.frame.registrations registrations) :
      Alike s { s with scope := { s.scope with frame := { s.scope.frame with registrations } } }

theorem Alike.refl (s : Session) : Alike s s :=
  .intro _ (List.forall₂_same.mpr fun _ _ => ⟨rfl, rfl, rfl, fun _ _ => rfl⟩)

theorem Alike.world (alike : Alike s s') : s'.world = s.world := by
  cases alike
  rfl

theorem Alike.resembles (alike : Alike s s') : s.scope.Resembles s'.scope := by
  cases alike
  exact ⟨rfl, rfl⟩

theorem Alike.registrations (alike : Alike s s') :
    Forall₂ Interchangeable s.scope.frame.registrations s'.scope.frame.registrations := by
  cases alike with
  | intro _ same => exact same

theorem Alike.depth_eq (alike : Alike s s') : s'.depth = s.depth := by
  rw [depth, depth, alike.registrations.length_eq]

/-! ### The operations -/

theorem alike_evaluate (t : Text) : Together Alike (evaluate t) (evaluate t) := by
  intro s s' alike
  unfold evaluate evaluating
  dsimp only
  rw [← alike.resembles.evaluate, alike.world]
  cases alike with
  | intro rs same => exact ⟨rfl, .intro rs same⟩

theorem alike_readsOf (t : Text) : Together Alike (readsOf t) (readsOf t) := by
  intro s s' alike
  unfold readsOf
  rw [alike.resembles.freeNames]
  split <;> exact ⟨rfl, alike⟩

theorem alike_store (name : Text) (v : Float) : Together Alike (changing (·.store name v)) (changing (·.store name v)) := by
  rintro s _ ⟨rs, same⟩
  exact ⟨rfl, .intro rs same⟩

theorem alike_define (f : Function) : Together Alike (changing (·.define f)) (changing (·.define f)) := by
  rintro s _ ⟨rs, same⟩
  exact ⟨rfl, .intro rs same⟩

theorem alike_note (e : Event) : Together Alike
    (modify fun s => { s with world := { s.world with events := s.world.events ++ [e] } } : Update Unit)
    (modify fun s => { s with world := { s.world with events := s.world.events ++ [e] } }) := by
  rintro s _ ⟨rs, same⟩
  exact ⟨rfl, .intro rs same⟩

theorem alike_mark (i : Nat) (running : Bool) : Together Alike (mark i running) (mark i running) := by
  rintro s _ ⟨rs, same⟩
  refine ⟨rfl, .intro _ (interchangeable_modify (fun r r' here => ?_) same i)⟩
  exact ⟨here.text, here.reads, rfl, here.callback⟩

theorem alike_register {t : Text} {reads : List Text} {callback callback' : Float → Script}
    (same : Interchangeable { text := t, reads := reads.map foldCase, callback }
      { text := t, reads := reads.map foldCase, callback := callback' }) :
    Together Alike (register t reads callback) (register t reads callback') := by
  rintro s _ ⟨rs, all⟩
  exact ⟨rfl, .intro _ (List.rel_append all (.cons same .nil))⟩

theorem alike_deriveBy (sets : ∀ v, Together Alike (set name v) (set other v)) (same : foldCase name = foldCase other)
    (t : Text) : Together Alike (deriveBy set name t) (deriveBy set other t) :=
  (alike_evaluate t).bind fun value => (alike_readsOf t).bind fun _ => (sets value).bind fun _ =>
    (alike_register (interchangeable_assign same t _)).bind fun _ => .pure value

theorem alike_run (sets : ∀ name v, Together Alike (set name v) (set name v)) (script : Script) :
    Together Alike (run set script) (run set script) := by
  induction script with
  | done => exact .pure ()
  | fail e => exact .fail _
  | note e next ih => exact (alike_note e).bind fun _ => ih
  | parameter name next ih =>
    refine .asking fun s s' alike => ?_
    rw [alike.resembles.parameter?]
    exact ih _
  | evaluate t next ih => exact (alike_evaluate t).attempt.bind ih
  | set name value next ih => exact (sets name value).attempt.bind ih
  | derive name t next ih => exact (alike_deriveBy (sets name) rfl t).attempt.bind ih
  | watch t reads callback next _ ih => exact (alike_register ⟨rfl, rfl, rfl, fun _ _ => rfl⟩).bind fun _ => ih
  | define f next ih => exact (alike_define f).bind fun _ => ih

theorem alike_turn (sets : ∀ name v, Together Alike (setWithin depth name v) (setWithin depth name v)) (i : Nat)
    (same : Interchangeable r r') : Together Alike (turn (setWithin depth) i r) (turn (setWithin depth) i r') := by
  have fires : Together Alike (fire (setWithin depth) r) (fire (setWithin depth) r') := by
    unfold fire
    rw [same.text]
    refine (alike_evaluate r.text).bind fun v => ?_
    rw [same.callback]
    exact alike_run sets (r.callback v)
  unfold turn
  rw [same.running]
  split
  · exact .pure ()
  · refine (alike_mark i true).bind fun _ => fires.attempt.bind fun outcome => (alike_mark i false).bind fun _ => ?_
    cases outcome with
    | ok a => exact .pure a
    | error e => exact .fail _

theorem alike_refresh (sets : ∀ name v, Together Alike (setWithin depth name v) (setWithin depth name v)) (places : List Nat) :
    Together Alike (refresh (setWithin depth) places) (refresh (setWithin depth) places) := by
  induction places with
  | nil => exact .pure ()
  | cons i places ih =>
    refine .bind ?_ fun _ => ih
    rw [refreshOne_eq]
    refine .asking fun s s' alike => ?_
    rcases interchangeable_getElem? alike.registrations i with ⟨absent, absent'⟩ | ⟨r, r', found, found', same⟩
    · rw [absent, absent']
      exact .pure ()
    · rw [found, found']
      exact alike_turn sets i same

theorem alike_setWithin (depth : Nat) (name : Text) (v : Float) :
    Together Alike (setWithin depth name v) (setWithin depth name v) := by
  -- What callbacks set, they set one level deeper.
  induction depth generalizing name v with
  | zero => exact .fail _
  | succ depth ih =>
    refine (alike_store name v).bind fun _ => .asking fun s s' alike => ?_
    rw [affected, affected, affected_registrations alike.registrations]
    exact alike_refresh ih _

/-- A parameter is set to the same effect under every spelling of its name. -/
theorem alike_set (same : foldCase name = foldCase other) (v : Float) :
    Together Alike (Session.set name v) (Session.set other v) := by
  refine .asking fun s s' alike => ?_
  rw [alike.depth_eq, ← setWithin_congr same]
  exact alike_setWithin _ name v

/-- A parameter is derived to the same effect under every spelling of its name. -/
theorem alike_derive (same : foldCase name = foldCase other) (t : Text) :
    Together Alike (derive name t) (derive other t) := by
  refine .asking fun s s' alike => ?_
  rw [alike.depth_eq]
  refine alike_deriveBy (fun v => ?_) same t
  rw [← setWithin_congr same]
  exact alike_setWithin _ name v

end Netlist.Session
