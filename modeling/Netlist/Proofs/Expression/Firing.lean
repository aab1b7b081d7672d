import Netlist.Proofs.Expression.Refresh

/-!
Which callbacks a parameter fires that is set. Those that read it take their turns one after another, and
whatever they do in between, registrations stay in their places and are marked at the end of a call as they
were at its start.
-/
namespace Netlist.Session
open Eval

variable {α β : Type} {set : Text → Float → Update Unit} {s s' s'' : Session} {name : Text} {v : Float}
  {outcome : Except EvalError Unit} {turns : List (Registration × Nat)} {i : Nat} {r : Registration}

/-! ### Registrations stay -/

/-- Whether a session has the registrations of another one, marked as they were there, and maybe more of them
behind, which are idle. -/
def Extends (s s' : Session) : Prop :=
  ∃ added, s'.scope.frame.registrations = s.scope.frame.registrations ++ added ∧ ∀ r ∈ added, r.running = false

theorem Extends.of_eq (same : s'.scope.frame.registrations = s.scope.frame.registrations) : Extends s s' :=
  ⟨[], by rw [same, List.append_nil], nofun⟩

theorem Extends.trans (first : Extends s s') (second : Extends s' s'') : Extends s s'' := by
  obtain ⟨added, same, idle⟩ := first
  obtain ⟨added', same', idle'⟩ := second
  exact ⟨added ++ added', by rw [same', same, List.append_assoc], List.forall_mem_append.mpr ⟨idle, idle'⟩⟩

theorem Extends.found (more : Extends s s') (found : s.scope.frame.registrations[i]? = some r) :
    s'.scope.frame.registrations[i]? = some r := by
  obtain ⟨added, same, _⟩ := more
  rw [same, List.getElem?_append_left (List.getElem?_eq_some_iff.mp found).1, found]

theorem modify_append {xs : List α} (ys : List α) {f : α → α} (inside : i < xs.length) :
    (xs ++ ys).modify i f = xs.modify i f ++ ys := by
  induction xs generalizing i with
  | nil => cases inside
  | cons x xs ih =>
    cases i with
    | zero => rfl
    | succ i => exact congrArg (x :: ·) (ih (Nat.lt_of_succ_lt_succ inside))

/-- What is marked and unmarked around a call is marked as before. -/
theorem Extends.unmark (found : s.scope.frame.registrations[i]? = some r) (idle : r.running = false)
    (within : Extends (s.marked i true) s') : Extends s (s'.marked i false) := by
  obtain ⟨added, same, idle'⟩ := within
  have inside : i < (s.scope.frame.registrations.modify i ({ · with running := true })).length := by
    rw [List.length_modify]
    exact (List.getElem?_eq_some_iff.mp found).1
  refine ⟨added, ?_, idle'⟩
  change s'.scope.frame.registrations.modify i _ = _
  rw [same]
  exact (modify_append added inside).trans (congrArg (· ++ added) (unmark_mark found idle))

def Extending (m : Update α) : Prop :=
  ∀ s (outcome : Except EvalError α) s', Returns m s outcome s' → Extends s s'

theorem Extending.of_state {m : Update α} (same : ∀ s, (m s).2.scope.frame.registrations = s.scope.frame.registrations) :
    Extending m := by
  intro s outcome s' returned
  have same := same s
  rw [returned.apply] at same
  exact .of_eq same

theorem Extending.pure (a : α) : Extending (pure a : Update α) := .of_state fun _ => rfl

theorem Extending.bind {m : Update α} {k : α → Update β} (first : Extending m) (next : ∀ a, Extending (k a)) :
    Extending (m >>= k) := by
  intro s outcome s' returned
  rcases returns_bind.mp returned with ⟨e, rfl, failed⟩ | ⟨a, s₁, ok, returned⟩
  · exact first s _ s' failed
  · exact (first s _ s₁ ok).trans (next a s₁ outcome s' returned)

theorem Extending.attempt {m : Update α} (extending : Extending m) : Extending m.attempt := by
  intro s outcome s' returned
  obtain ⟨o, rfl, inner⟩ := returns_attempt.mp returned
  exact extending s o s' inner

theorem extending_register (t : Text) (reads : List Text) (callback : Float → Script) :
    Extending (register t reads callback) := by
  intro s outcome s' returned
  obtain rfl : _ = s' := congrArg Prod.snd returned.apply
  exact ⟨[_], rfl, fun r member => by rw [List.mem_singleton.mp member]⟩

theorem extending_evaluate (t : Text) : Extending (evaluate t) := .of_state fun _ => rfl

theorem extending_readsOf (t : Text) : Extending (readsOf t) := .of_state fun s => by
  unfold readsOf
  split <;> rfl

theorem extending_deriveBy (extending : ∀ name v, Extending (set name v)) (name t : Text) : Extending (deriveBy set name t) :=
  (extending_evaluate t).bind fun value => (extending_readsOf t).bind fun reads => (extending name value).bind fun _ =>
    (extending_register t reads _).bind fun _ => .pure value

/-- Callbacks leave registrations in their places, if what they set does. -/
theorem extending_run (extending : ∀ name v, Extending (set name v)) (script : Script) : Extending (run set script) := by
  induction script with
  | done => exact .pure ()
  | fail e => exact .of_state fun _ => rfl
  | note e next ih => exact Extending.bind (.of_state fun _ => rfl) fun _ => ih
  | parameter name next ih => exact Extending.bind (.of_state fun _ => rfl) fun s => ih _
  | evaluate t next ih => exact (extending_evaluate t).attempt.bind ih
  | set name value next ih => exact (extending name value).attempt.bind ih
  | derive name t next ih => exact (extending_deriveBy extending name t).attempt.bind ih
  | watch t reads callback next _ ih => exact (extending_register t reads callback).bind fun _ => ih
  | define f next ih => exact Extending.bind (.of_state fun _ => rfl) fun _ => ih

/-! ### One turn -/

def fire (set : Text → Float → Update Unit) (r : Registration) : Update Unit := do run set (r.callback (← evaluate r.text))

theorem fire_returns : Returns (fire set r) s outcome s' ↔
    (∃ e, outcome = .error e ∧ Returns (evaluate r.text) s (.error e) s') ∨
      ∃ v s₁, Returns (evaluate r.text) s (.ok v) s₁ ∧ Returns (run set (r.callback v)) s₁ outcome s' :=
  returns_bind

theorem get_bind_apply (f : Session → Update β) : ((get : Update Session) >>= f) s = f s s := rfl

theorem refreshOne_running (set : Text → Float → Update Unit) (found : s.scope.frame.registrations[i]? = some r)
    (running : r.running = true) : refreshOne set i s = (.ok (), s) := by
  rw [refreshOne, get_bind_apply, found]
  exact congrFun (if_pos running) s

theorem refreshOne_fire (set : Text → Float → Update Unit) (found : s.scope.frame.registrations[i]? = some r)
    (idle : r.running = false) : refreshOne set i s = ((fire set r).attempt >>= fun outcome => do
      mark i false
      ofExcept outcome : Update Unit) (s.marked i true) := by
  rw [refreshOne, get_bind_apply, found]
  exact congrFun (if_neg (by simp [idle])) s

theorem refreshOne_idle (found : s.scope.frame.registrations[i]? = some r) (idle : r.running = false) :
    Returns (refreshOne set i) s outcome s' ↔ ∃ s₁, Returns (fire set r) (s.marked i true) outcome s₁ ∧ s' = s₁.marked i false := by
  have unmarks (o : Except EvalError Unit) (s₁ : Session) : Returns (do
      mark i false
      ofExcept o) s₁ outcome s' ↔ outcome = o ∧ s' = s₁.marked i false := by
    rw [← returns_ofExcept]
    exact returns_congr rfl
  rw [returns_congr (refreshOne_fire set found idle), returns_attempt_bind]
  simp only [unmarks]
  constructor
  · rintro ⟨o, s₁, fired, rfl, rfl⟩
    exact ⟨s₁, fired, rfl⟩
  · rintro ⟨s₁, fired, rfl⟩
    exact ⟨outcome, s₁, fired, rfl, rfl⟩

theorem extending_fire (extending : ∀ name v, Extending (set name v)) (r : Registration) : Extending (fire set r) :=
  (extending_evaluate r.text).bind fun v => extending_run extending (r.callback v)

theorem extending_refreshOne (extending : ∀ name v, Extending (set name v)) (i : Nat) : Extending (refreshOne set i) := by
  intro s outcome s' returned
  cases found : s.scope.frame.registrations[i]? with
  | none =>
    have same : refreshOne set i s = (.ok (), s) := by
      rw [refreshOne, get_bind_apply, found]
      rfl
    obtain rfl : s = s' := congrArg Prod.snd (same.symm.trans returned.apply)
    exact .of_eq rfl
  | some r =>
    cases running : r.running with
    | true =>
      obtain rfl : s = s' := congrArg Prod.snd ((refreshOne_running set found running).symm.trans returned.apply)
      exact .of_eq rfl
    | false =>
      obtain ⟨s₁, fired, rfl⟩ := (refreshOne_idle found running).mp returned
      exact .unmark found running (extending_fire extending r _ _ _ fired)

theorem extending_refresh (extending : ∀ name v, Extending (set name v)) (places : List Nat) :
    Extending (refresh set places) := by
  induction places with
  | nil => exact .pure ()
  | cons i places ih => exact (extending_refreshOne extending i).bind fun _ => ih

/-- Setting a parameter leaves registrations in their places, however deep callbacks nest. -/
theorem extending_setWithin (depth : Nat) (name : Text) (v : Float) : Extending (setWithin depth name v) := by
  induction depth generalizing name v with
  | zero => exact .of_state fun _ => rfl
  | succ depth ih =>
    exact Extending.bind (.of_state fun _ => rfl) fun _ => Extending.bind (.of_state fun _ => rfl) fun s =>
      extending_refresh ih (affected s.scope name)

/-! ### All turns -/

def runs (s : Session) (place : Nat) : Bool := s.scope.frame.registrations[place]?.any (·.running)

def stored (s : Session) (name : Text) (v : Float) : Session := { s with scope := s.scope.store name v }

/-- How registrations, with their places, take their turns one after another. The first that fails is the last. -/
inductive Visits (set : Text → Float → Update Unit) :
    List (Registration × Nat) → Session → Except EvalError Unit → Session → Prop
  | ends (s : Session) : Visits set [] s (.ok ()) s
  | passed {r : Registration} {i : Nat} {turns : List (Registration × Nat)} {s s' : Session}
      {outcome : Except EvalError Unit} (running : s.runs i = true) (later : Visits set turns s outcome s') :
      Visits set ((r, i) :: turns) s outcome s'
  | unevaluated {r : Registration} {i : Nat} {turns : List (Registration × Nat)} {s s₁ : Session} {e : EvalError}
      (idle : s.runs i = false) (evaluated : Returns (evaluate r.text) (s.marked i true) (.error e) s₁) :
      Visits set ((r, i) :: turns) s (.error e) (s₁.marked i false)
  | failed {r : Registration} {i : Nat} {turns : List (Registration × Nat)} {s s₁ s₂ : Session} {v : Float} {e : EvalError}
      (idle : s.runs i = false) (evaluated : Returns (evaluate r.text) (s.marked i true) (.ok v) s₁)
      (called : Returns (run set (r.callback v)) s₁ (.error e) s₂) :
      Visits set ((r, i) :: turns) s (.error e) (s₂.marked i false)
  | called {r : Registration} {i : Nat} {turns : List (Registration × Nat)} {s s₁ s₂ s' : Session} {v : Float}
      {outcome : Except EvalError Unit} (idle : s.runs i = false)
      (evaluated : Returns (evaluate r.text) (s.marked i true) (.ok v) s₁)
      (called : Returns (run set (r.callback v)) s₁ (.ok ()) s₂) (later : Visits set turns (s₂.marked i false) outcome s') :
      Visits set ((r, i) :: turns) s outcome s'

theorem runs_eq (found : s.scope.frame.registrations[i]? = some r) : s.runs i = r.running := by simp [runs, found]

/-- What is refreshed takes its turns as it was registered when they began. -/
theorem visits_of_refresh (extending : ∀ name v, Extending (set name v))
    (known : ∀ turn ∈ turns, s.scope.frame.registrations[turn.2]? = some turn.1)
    (returned : Returns (refresh set (turns.map (·.2))) s outcome s') : Visits set turns s outcome s' := by
  induction turns generalizing s with
  | nil =>
    obtain ⟨rfl, rfl⟩ := returns_pure.mp returned
    exact .ends _
  | cons turn turns ih =>
    obtain ⟨r, i⟩ := turn
    obtain ⟨found, known⟩ := List.forall_mem_cons.mp known
    cases running : r.running with
    | true =>
      have skips := refreshOne_running set found running
      rcases returns_bind.mp returned with ⟨e, _, failed⟩ | ⟨⟨⟩, s₁, ok, rest⟩
      · cases skips.symm.trans failed.apply
      · obtain rfl : s = s₁ := congrArg Prod.snd (skips.symm.trans ok.apply)
        exact .passed ((runs_eq found).trans running) (ih known rest)
    | false =>
      have idle : s.runs i = false := (runs_eq found).trans running
      rcases returns_bind.mp returned with ⟨e, rfl, failed⟩ | ⟨⟨⟩, s₁, ok, rest⟩
      · obtain ⟨s₁, fired, rfl⟩ := (refreshOne_idle found running).mp failed
        rcases fire_returns.mp fired with ⟨_, same, evaluated⟩ | ⟨v, s₂, evaluated, called⟩
        · cases same
          exact .unevaluated idle evaluated
        · exact .failed idle evaluated called
      · obtain ⟨s₂, fired, rfl⟩ := (refreshOne_idle found running).mp ok
        have stays : Extends s (s₂.marked i false) := .unmark found running (extending_fire extending r _ _ _ fired)
        rcases fire_returns.mp fired with ⟨_, same, _⟩ | ⟨v, s₃, evaluated, called⟩
        · cases same
        · exact .called idle evaluated called (ih (fun turn member => stays.found (known turn member)) rest)

theorem refresh_of_visits (extending : ∀ name v, Extending (set name v))
    (known : ∀ turn ∈ turns, s.scope.frame.registrations[turn.2]? = some turn.1) (visits : Visits set turns s outcome s') :
    Returns (refresh set (turns.map (·.2))) s outcome s' := by
  induction visits with
  | ends s => exact returns_pure.mpr ⟨rfl, rfl⟩
  | passed running _ ih =>
    obtain ⟨found, known⟩ := List.forall_mem_cons.mp known
    rw [runs_eq found] at running
    exact returns_bind.mpr (.inr ⟨(), _, .value (refreshOne_running set found running), ih known⟩)
  | unevaluated idle evaluated =>
    obtain ⟨found, _⟩ := List.forall_mem_cons.mp known
    rw [runs_eq found] at idle
    refine returns_bind.mpr (.inl ⟨_, rfl, (refreshOne_idle found idle).mpr ⟨_, ?_, rfl⟩⟩)
    exact fire_returns.mpr (.inl ⟨_, rfl, evaluated⟩)
  | failed idle evaluated called =>
    obtain ⟨found, _⟩ := List.forall_mem_cons.mp known
    rw [runs_eq found] at idle
    refine returns_bind.mpr (.inl ⟨_, rfl, (refreshOne_idle found idle).mpr ⟨_, ?_, rfl⟩⟩)
    exact fire_returns.mpr (.inr ⟨_, _, evaluated, called⟩)
  | called idle evaluated called _ ih =>
    obtain ⟨found, known⟩ := List.forall_mem_cons.mp known
    rw [runs_eq found] at idle
    have fired := fire_returns.mpr (.inr ⟨_, _, evaluated, called⟩)
    have stays := Extends.unmark found idle (extending_fire extending _ _ _ _ fired)
    exact returns_bind.mpr (.inr ⟨(), _, (refreshOne_idle found idle).mpr ⟨_, fired, rfl⟩,
      ih fun turn member => stays.found (known turn member)⟩)

def readers (s : Session) (name : Text) : List (Registration × Nat) :=
  s.scope.frame.registrations.zipIdx.filter (·.1.readsName name)

theorem mem_readers : (r, i) ∈ s.readers name ↔ s.scope.frame.registrations[i]? = some r ∧ r.readsName name = true := by
  rw [readers, List.mem_filter, List.mk_mem_zipIdx_iff_getElem?]

theorem pairwise_readers (s : Session) (name : Text) : (s.readers name).Pairwise (·.2 < ·.2) := by
  refine List.Pairwise.filter _ (List.pairwise_map.mp ?_)
  rw [List.zipIdx_map_snd]
  exact List.pairwise_lt_range'

theorem setWithin_succ (depth : Nat) (name : Text) (v : Float) (s : Session) :
    setWithin (depth + 1) name v s = refresh (setWithin depth) ((s.readers name).map (·.2)) (s.stored name v) := rfl

theorem returns_setWithin_succ {depth : Nat} : Returns (setWithin (depth + 1) name v) s outcome s' ↔
    Visits (setWithin depth) (s.readers name) (s.stored name v) outcome s' := by
  have known (turn : Registration × Nat) (member : turn ∈ s.readers name) :
      (s.stored name v).scope.frame.registrations[turn.2]? = some turn.1 := (mem_readers.mp member).1
  rw [returns_congr (setWithin_succ depth name v s)]
  exact ⟨visits_of_refresh (extending_setWithin depth) known, refresh_of_visits (extending_setWithin depth) known⟩

theorem set_eq (name : Text) (v : Float) (s : Session) : Session.set name v s = setWithin s.depth name v s := by
  unfold Session.set
  rw [bind_apply]
  rfl

/-- What setting a parameter fires, at the top or, at any depth, from inside a callback. The parameter is stored,
and the registrations that read it then take their turns, each once and in their order. The call returns what
the last turn does, and then every registration is marked as it was before. -/
theorem set_fires (s : Session) (name : Text) (v : Float) :
    ∃ turns : List (Registration × Nat), turns.Pairwise (·.2 < ·.2) ∧
      (∀ r i, (r, i) ∈ turns ↔ s.scope.frame.registrations[i]? = some r ∧ r.readsName name = true) ∧
      (∀ depth outcome s', Returns (setWithin (depth + 1) name v) s outcome s' ↔
        Visits (setWithin depth) turns (s.stored name v) outcome s') ∧
      (∀ outcome s', Returns (Session.set name v) s outcome s' ↔
        Visits (setWithin (s.depth - 1)) turns (s.stored name v) outcome s') ∧
      ∀ update : Update Unit, (update = Session.set name v ∨ ∃ depth, update = setWithin depth name v) →
        ∀ outcome s', Returns update s outcome s' → ∃ added,
          s'.scope.frame.registrations = s.scope.frame.registrations ++ added ∧ ∀ r ∈ added, r.running = false := by
  have deep : s.depth = s.depth - 1 + 1 := (Nat.succ_pred_eq_of_pos (Nat.succ_pos _)).symm
  refine ⟨s.readers name, s.pairwise_readers name, fun _ _ => mem_readers, fun _ _ _ => returns_setWithin_succ,
    fun outcome s' => ?_, ?_⟩
  · rw [returns_congr (set_eq name v s), deep, returns_setWithin_succ]
    rfl
  · rintro update (rfl | ⟨depth, rfl⟩) outcome s' returned
    · exact extending_setWithin _ name v s outcome s' ((returns_congr (set_eq name v s)).mp returned)
    · exact extending_setWithin depth name v s outcome s' returned

/-- A callback that fails and one behind it that is not called then. -/
theorem set_fires_failing :
    let reader (callback : Float → Script) : Registration := { text := chars "x", reads := [chars "x"], callback }
    let frame : Frame := { registrations := [reader fun _ => .fail .empty, reader fun _ => .done] }
    let s : Session := { scope := { dialect := .hspice, frame } }
    ∃ s', Returns (Session.set (chars "X") 1) s (.error .empty) s' ∧
      (∃ turns, Visits (setWithin (s.depth - 1)) turns (s.stored (chars "X") 1) (.error .empty) s') ∧
      ∃ added, s'.scope.frame.registrations = frame.registrations ++ added ∧ ∀ r ∈ added, r.running = false := by
  intro reader frame s
  have failed : (Session.set (chars "X") 1 s).1 = .error (.error .empty) := by decide +kernel
  have returned : Returns (Session.set (chars "X") 1) s (.error .empty) (Session.set (chars "X") 1 s).2 :=
    .error (Prod.ext failed rfl)
  obtain ⟨turns, _, _, _, visits, stays⟩ := set_fires s (chars "X") 1
  exact ⟨_, returned, ⟨turns, (visits _ _).mp returned⟩, stays _ (.inl rfl) _ _ returned⟩

end Netlist.Session
