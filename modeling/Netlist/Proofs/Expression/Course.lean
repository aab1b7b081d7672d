import Netlist.Proofs.Expression.Firing

/-!
How setting a parameter comes to an end. While callbacks register nothing, the idle registrations get fewer
with each callback inside another one, whatever sets whatever. So calls nest no deeper than there are
registrations, and their course is a finite tree, in which no callback runs inside itself.
-/
namespace Netlist

inductive Script.Quiet : Script → Prop
  | done : Quiet .done
  | fail (e : EvalError) : Quiet (.fail e)
  | note (e : Event) {next : Script} (later : Quiet next) : Quiet (.note e next)
  | parameter (name : Text) {next : Option Float → Script} (later : ∀ value, Quiet (next value)) :
      Quiet (.parameter name next)
  | evaluate (t : Text) {next : Except EvalError Float → Script} (later : ∀ outcome, Quiet (next outcome)) :
      Quiet (.evaluate t next)
  | set (name : Text) (value : Float) {next : Except EvalError Unit → Script} (later : ∀ outcome, Quiet (next outcome)) :
      Quiet (.set name value next)
  | define (f : Function) {next : Script} (later : Quiet next) : Quiet (.define f next)

def Registration.script (r : Registration) : Script := .evaluate r.text fun
  | .ok v => r.callback v
  | .error e => .fail e

theorem Registration.quiet_script {r : Registration} (quiet : ∀ v, (r.callback v).Quiet) : r.script.Quiet :=
  .evaluate r.text fun
    | .ok v => quiet v
    | .error e => .fail e

namespace Session
open Eval

variable {set : Text → Float → Update Unit} {s s' s₁ : Session} {name : Text} {v : Float} {outcome : Except Fault Unit}
  {turns : List (Registration × Nat)} {i : Nat} {r : Registration} {script script' : Script}

theorem run_script (set : Text → Float → Update Unit) (r : Registration) : run set r.script = fire set r := by
  funext s
  change (((evaluate r.text).attempt >>= _ : Update Unit) s) = (evaluate r.text >>= _ : Update Unit) s
  rw [bind_apply, bind_apply, attempt_apply]
  rcases evaluate r.text s with ⟨(e | _ | _) | v, s'⟩ <;> rfl

def Quiet (s : Session) : Prop := ∀ r ∈ s.scope.frame.registrations, ∀ v, (r.callback v).Quiet

/-! ### Courses -/

inductive Steps : Script → Session → Script → Session → Prop
  | note (e : Event) (next : Script) (s : Session) :
      Steps (.note e next) s next { s with world := { s.world with events := s.world.events ++ [e] } }
  | parameter (name : Text) (next : Option Float → Script) (s : Session) :
      Steps (.parameter name next) s (next (s.scope.parameter? name)) s
  | evaluate {t : Text} {next : Except EvalError Float → Script} {s s' : Session} {outcome : Except EvalError Float}
      (evaluated : Returns (evaluate t) s outcome s') : Steps (.evaluate t next) s (next outcome) s'
  | define (f : Function) (next : Script) (s : Session) :
      Steps (.define f next) s next { s with scope := s.scope.define f }

theorem Steps.run_eq (steps : Steps script s script' s') (set : Text → Float → Update Unit) :
    run set script s = run set script' s' := by
  cases steps with
  | note e next s => rfl
  | parameter name next s => rfl
  | define f next s => rfl
  | evaluate evaluated =>
    change ((_ : Update _).attempt >>= _ : Update Unit) s = _
    rw [bind_apply, attempt_apply, evaluated.apply]
    cases ‹Except EvalError Float› <;> rfl

theorem registrations_evaluate {t : Text} {o : Except EvalError Float} (evaluated : Returns (evaluate t) s o s') :
    s'.scope.frame.registrations = s.scope.frame.registrations :=
  congrArg (·.scope.frame.registrations) (congrArg Prod.snd evaluated.apply).symm

theorem Steps.registrations (steps : Steps script s script' s') :
    s'.scope.frame.registrations = s.scope.frame.registrations := by
  cases steps with
  | note e next s => rfl
  | parameter name next s => rfl
  | define f next s => rfl
  | evaluate evaluated => exact registrations_evaluate evaluated

/-- The course of a call. A place stands for the registration there. -/
inductive Course where
  | ends
  /-- An evaluation that does not return. -/
  | broken (t : Text) (s : Session)
  /-- A registration that is passed over because its callback is running. -/
  | passed (place : Nat) (next : Course)
  /-- A registration whose callback runs. -/
  | fired (place : Nat) (inner next : Course)
  /-- A parameter that a callback sets. -/
  | sets (inner next : Course)

namespace Course

def height : Course → Nat
  | ends | broken .. => 0
  | passed _ next => next.height
  | fired _ inner next => max inner.height next.height
  | sets inner next => max (inner.height + 1) next.height

/-- Whether no callback of a registration runs inside itself, or while that of a given place does. -/
def Apart (running : List Nat) : Course → Prop
  | ends | broken .. => True
  | passed _ next => next.Apart running
  | fired place inner next => place ∉ running ∧ inner.Apart (place :: running) ∧ next.Apart running
  | sets inner next => inner.Apart running ∧ next.Apart running

/-- Whether an evaluation ends with a fault that no caller handles. -/
def Breaks (f : Fault) : Course → Prop
  | ends => False
  | broken t s => (evaluate t s).1 = .error f
  | passed _ next => next.Breaks f
  | fired _ inner next | sets inner next => inner.Breaks f ∨ next.Breaks f

end Course

inductive Task where
  | set (name : Text) (v : Float)
  | visit (turns : List (Registration × Nat))
  | perform (script : Script)

/-- The session that a callback leaves behind: an error takes back the mark, another fault does not. -/
def released (place : Nat) : Fault → Session → Session
  | .error _, s => s.marked place false
  | _, s => s

/-- What happens when a parameter is set, registrations take their turns, or a script registers nothing and is
performed. Nothing bounds how deep calls nest. -/
inductive Happens : Task → Session → Course → Except Fault Unit → Session → Prop
  | set {name : Text} {v : Float} {s s' : Session} {course : Course} {outcome : Except Fault Unit}
      (visit : Happens (.visit (s.readers name)) (s.stored name v) course outcome s') :
      Happens (.set name v) s course outcome s'
  | ends (s : Session) : Happens (.visit []) s .ends (.ok ()) s
  | passed {r : Registration} {i : Nat} {turns : List (Registration × Nat)} {s s' : Session} {course : Course}
      {outcome : Except Fault Unit} (running : s.runs i = true) (later : Happens (.visit turns) s course outcome s') :
      Happens (.visit ((r, i) :: turns)) s (.passed i course) outcome s'
  | fired {r : Registration} {i : Nat} {turns : List (Registration × Nat)} {s s₁ s' : Session} {inner course : Course}
      {outcome : Except Fault Unit} (idle : s.runs i = false)
      (call : Happens (.perform r.script) (s.marked i true) inner (.ok ()) s₁)
      (later : Happens (.visit turns) (s₁.marked i false) course outcome s') :
      Happens (.visit ((r, i) :: turns)) s (.fired i inner course) outcome s'
  | stopped {r : Registration} {i : Nat} {turns : List (Registration × Nat)} {s s₁ : Session} {inner : Course} {f : Fault}
      (idle : s.runs i = false) (call : Happens (.perform r.script) (s.marked i true) inner (.error f) s₁) :
      Happens (.visit ((r, i) :: turns)) s (.fired i inner .ends) (.error f) (released i f s₁)
  | done (s : Session) : Happens (.perform .done) s .ends (.ok ()) s
  | fail (e : EvalError) (s : Session) : Happens (.perform (.fail e)) s .ends (.error (.error e)) s
  | steps {script script' : Script} {s s₁ s' : Session} {course : Course} {outcome : Except Fault Unit}
      (steps : Steps script s script' s₁) (later : Happens (.perform script') s₁ course outcome s') :
      Happens (.perform script) s course outcome s'
  | broken {t : Text} {next : Except EvalError Float → Script} {s s' : Session} {f : Fault}
      (evaluated : (evaluate t).attempt s = (.error f, s')) :
      Happens (.perform (.evaluate t next)) s (.broken t s) (.error f) s'
  | sets {name : Text} {v : Float} {next : Except EvalError Unit → Script} {s s₁ s' : Session} {inner course : Course}
      {ended outcome : Except Fault Unit} {o : Except EvalError Unit} (call : Happens (.set name v) s inner ended s₁)
      (returned : handled ended = .ok o) (later : Happens (.perform (next o)) s₁ course outcome s') :
      Happens (.perform (.set name v next)) s (.sets inner course) outcome s'
  | cut {name : Text} {v : Float} {next : Except EvalError Unit → Script} {s s' : Session} {inner : Course}
      {ended : Except Fault Unit} {f : Fault} (call : Happens (.set name v) s inner ended s')
      (unreturned : handled ended = .error f) :
      Happens (.perform (.set name v next)) s (.sets inner .ends) (.error f) s'

def Task.Known (s : Session) : Task → Prop
  | .visit turns => ∀ turn ∈ turns, s.scope.frame.registrations[turn.2]? = some turn.1
  | _ => True

theorem known_readers (s : Session) (name : Text) (v : Float) : (Task.visit (s.readers name)).Known (s.stored name v) :=
  fun _ member => (mem_readers.mp member).1

theorem registrations_unmark (found : s.scope.frame.registrations[i]? = some r) (idle : r.running = false)
    (same : s₁.scope.frame.registrations = (s.marked i true).scope.frame.registrations) :
    (s₁.marked i false).scope.frame.registrations = s.scope.frame.registrations := by
  change s₁.scope.frame.registrations.modify i _ = _
  rw [same]
  exact unmark_mark found idle

/-- A call that returns leaves the registrations as they were. -/
theorem Happens.registrations {task : Task} {course : Course} (happens : Happens task s course outcome s')
    (known : task.Known s) {o : Except EvalError Unit} (returned : handled outcome = .ok o) :
    s'.scope.frame.registrations = s.scope.frame.registrations := by
  induction happens generalizing o with
  | set _ ih => exact ih (known_readers _ _ _) returned
  | ends s => rfl
  | passed _ _ ih => exact ih (List.forall_mem_cons.mp known).2 returned
  | fired idle _ _ ih ih' =>
    obtain ⟨found, known⟩ := List.forall_mem_cons.mp known
    have stays := registrations_unmark found ((runs_eq found).symm.trans idle) (ih trivial rfl)
    exact (ih' (fun turn member => stays ▸ known turn member) returned).trans stays
  | stopped idle _ ih =>
    obtain ⟨found, _⟩ := List.forall_mem_cons.mp known
    obtain ⟨e, rfl⟩ := handled_error_ok returned
    exact registrations_unmark found ((runs_eq found).symm.trans idle) (ih trivial rfl)
  | done s => rfl
  | fail e s => rfl
  | steps steps _ ih => exact (ih trivial returned).trans steps.registrations
  | broken evaluated =>
    obtain ⟨e, rfl⟩ := handled_error_ok returned
    rw [attempt_apply] at evaluated
    exact absurd rfl ((eq_of_handled_error (congrArg Prod.fst evaluated)).2 e)
  | sets _ ok _ ih ih' => exact (ih' trivial returned).trans (ih trivial ok)
  | cut _ unreturned ih =>
    obtain ⟨e, rfl⟩ := handled_error_ok returned
    exact absurd rfl ((eq_of_handled_error unreturned).2 e)

theorem Happens.unmark {inner : Course} (call : Happens (.perform r.script) (s.marked i true) inner (.ok ()) s₁)
    (found : s.scope.frame.registrations[i]? = some r) (idle : s.runs i = false) :
    (s₁.marked i false).scope.frame.registrations = s.scope.frame.registrations :=
  registrations_unmark found ((runs_eq found).symm.trans idle) (call.registrations trivial rfl)

/-! ### How deep calls nest -/

def idle (s : Session) : Nat := s.scope.frame.registrations.countP (!·.running)

theorem idle_congr (same : s'.scope.frame.registrations = s.scope.frame.registrations) : s'.idle = s.idle :=
  congrArg (List.countP _) same

theorem runs_congr (same : s'.scope.frame.registrations = s.scope.frame.registrations) (i : Nat) : s'.runs i = s.runs i := by
  rw [runs, runs, same]

theorem idle_marked (found : s.scope.frame.registrations[i]? = some r) (idle : r.running = false) :
    (s.marked i true).idle + 1 = s.idle := by
  obtain ⟨inside, here⟩ := List.getElem?_eq_some_iff.mp found
  obtain ⟨before, r', behind, whole, length, modified⟩ := List.exists_of_modify ({ · with running := true }) inside
  have same : r' = r := by
    have there := found
    rw [whole, ← length, List.getElem?_append_right (Nat.le_refl _), Nat.sub_self] at there
    exact Option.some.inj there
  change (s.scope.frame.registrations.modify i _).countP _ + 1 = s.scope.frame.registrations.countP _
  rw [modified, whole, same]
  simp [idle, Nat.add_assoc]

theorem runs_marked (found : s.scope.frame.registrations[i]? = some r) {running : List Nat}
    (marked : ∀ j ∈ running, s.runs j = true) : ∀ j ∈ i :: running, (s.marked i true).runs j = true := by
  intro j member
  change (s.scope.frame.registrations.modify i _)[j]?.any _ = true
  rw [List.getElem?_modify]
  by_cases here : i = j
  · subst here
    simp [found]
  · have before := marked j ((List.mem_cons.mp member).resolve_left fun same => here same.symm)
    simpa [here, runs] using before

def Task.room (s : Session) : Task → Nat
  | .set .. | .visit _ => s.idle
  | .perform _ => s.idle + 1

theorem Happens.height_le {task : Task} {course : Course} (happens : Happens task s course outcome s') (known : task.Known s) :
    course.height ≤ task.room s := by
  induction happens with
  | set _ ih => exact ih (known_readers _ _ _)
  | ends s => exact Nat.zero_le _
  | passed _ _ ih => exact ih (List.forall_mem_cons.mp known).2
  | fired idle call _ ih ih' =>
    obtain ⟨found, known⟩ := List.forall_mem_cons.mp known
    have stays := call.unmark found idle
    refine Nat.max_le.mpr ⟨?_, ?_⟩
    · exact Nat.le_trans (ih trivial) (Nat.le_of_eq (idle_marked found ((runs_eq found).symm.trans idle)))
    · exact Nat.le_trans (ih' fun turn member => stays ▸ known turn member) (Nat.le_of_eq (idle_congr stays))
  | stopped idle _ ih =>
    obtain ⟨found, _⟩ := List.forall_mem_cons.mp known
    refine Nat.max_le.mpr ⟨?_, Nat.zero_le _⟩
    exact Nat.le_trans (ih trivial) (Nat.le_of_eq (idle_marked found ((runs_eq found).symm.trans idle)))
  | done | fail | broken => exact Nat.zero_le _
  | steps steps _ ih => exact Nat.le_trans (ih trivial) (Nat.le_of_eq (congrArg (· + 1) (idle_congr steps.registrations)))
  | sets call returned _ ih ih' =>
    have stays := call.registrations trivial returned
    refine Nat.max_le.mpr ⟨Nat.succ_le_succ (ih trivial), ?_⟩
    exact Nat.le_trans (ih' trivial) (Nat.le_of_eq (congrArg (· + 1) (idle_congr stays)))
  | cut _ _ ih => exact Nat.max_le.mpr ⟨Nat.succ_le_succ (ih trivial), Nat.zero_le _⟩

theorem Happens.apart {task : Task} {course : Course} (happens : Happens task s course outcome s') (known : task.Known s)
    {running : List Nat} (marked : ∀ i ∈ running, s.runs i = true) : course.Apart running := by
  induction happens generalizing running with
  | set _ ih => exact ih (known_readers _ _ _) marked
  | ends | done | fail | broken => trivial
  | passed _ _ ih => exact ih (List.forall_mem_cons.mp known).2 marked
  | fired idle call _ ih ih' =>
    obtain ⟨found, known⟩ := List.forall_mem_cons.mp known
    have stays := call.unmark found idle
    refine ⟨fun inside => ?_, ih trivial (runs_marked found marked), ?_⟩
    · cases idle.symm.trans (marked _ inside)
    · exact ih' (fun turn member => stays ▸ known turn member) fun j member => (runs_congr stays j).trans (marked j member)
  | stopped idle _ ih =>
    obtain ⟨found, _⟩ := List.forall_mem_cons.mp known
    refine ⟨fun inside => ?_, ih trivial (runs_marked found marked), trivial⟩
    cases idle.symm.trans (marked _ inside)
  | steps steps _ ih => exact ih trivial fun i member => (runs_congr steps.registrations i).trans (marked i member)
  | sets call returned _ ih ih' =>
    have stays := call.registrations trivial returned
    exact ⟨ih trivial marked, ih' trivial fun i member => (runs_congr stays i).trans (marked i member)⟩
  | cut _ _ ih => exact ⟨ih trivial marked, trivial⟩

theorem Happens.breaks {task : Task} {course : Course} (happens : Happens task s course outcome s') {f : Fault}
    (unreturned : handled outcome = .error f) : course.Breaks f := by
  induction happens with
  | set _ ih => exact ih unreturned
  | ends | done | fail => cases unreturned
  | passed _ _ ih => exact ih unreturned
  | fired _ _ _ _ ih' => exact .inr (ih' unreturned)
  | stopped _ _ ih => exact .inl (ih unreturned)
  | steps _ _ ih => exact ih unreturned
  | broken evaluated =>
    obtain ⟨same, _⟩ := eq_of_handled_error unreturned
    cases same
    rw [attempt_apply] at evaluated
    exact (eq_of_handled_error (congrArg Prod.fst evaluated)).1
  | sets _ _ _ _ ih' => exact .inr (ih' unreturned)
  | cut _ passed ih =>
    obtain ⟨same, _⟩ := eq_of_handled_error unreturned
    cases same
    exact .inl (ih passed)

/-! ### Calls within a depth of nesting -/

theorem refreshOne_of_run (found : s.scope.frame.registrations[i]? = some r) (idle : r.running = false)
    (called : run set r.script (s.marked i true) = (outcome, s₁)) :
    refreshOne set i s = match outcome with
      | .ok () => (.ok (), s₁.marked i false)
      | .error f => (.error f, released i f s₁) := by
  rw [run_script] at called
  rw [refreshOne_fire set found idle, bind_apply, attempt_apply, called]
  rcases outcome with (e | _ | _) | ⟨⟩ <;> rfl

theorem run_set_ok (called : set name v s = (outcome, s₁)) {o : Except EvalError Unit} (returned : handled outcome = .ok o)
    (next : Except EvalError Unit → Script) : run set (.set name v next) s = run set (next o) s₁ := by
  change ((set name v).attempt >>= _ : Update Unit) s = _
  rw [bind_apply, attempt_apply, called, returned]

theorem run_set_error (called : set name v s = (outcome, s₁)) {f : Fault} (unreturned : handled outcome = .error f)
    (next : Except EvalError Unit → Script) : run set (.set name v next) s = (.error f, s₁) := by
  change ((set name v).attempt >>= _ : Update Unit) s = _
  rw [bind_apply, attempt_apply, called, unreturned]

def Task.within (depth : Nat) : Task → Update Unit
  | .set name v => setWithin (depth + 1) name v
  | .visit turns => refresh (setWithin depth) (turns.map (·.2))
  | .perform script => run (setWithin depth) script

/-- A bound that the nesting does not reach makes no difference. -/
theorem Happens.within_eq {task : Task} {course : Course} (happens : Happens task s course outcome s') (known : task.Known s)
    {depth : Nat} (shallow : course.height ≤ depth) : task.within depth s = (outcome, s') := by
  induction happens generalizing depth with
  | set _ ih => exact ih (known_readers _ _ _) shallow
  | ends | done | fail => rfl
  | passed running _ ih =>
    obtain ⟨found, known⟩ := List.forall_mem_cons.mp known
    change (refreshOne _ _ >>= _ : Update Unit) _ = _
    rw [bind_apply, refreshOne_running _ found ((runs_eq found).symm.trans running)]
    exact ih known shallow
  | fired idle call _ ih ih' =>
    obtain ⟨found, known⟩ := List.forall_mem_cons.mp known
    have stays := call.unmark found idle
    obtain ⟨inner, later⟩ := Nat.max_le.mp shallow
    change (refreshOne _ _ >>= _ : Update Unit) _ = _
    rw [bind_apply, refreshOne_of_run found ((runs_eq found).symm.trans idle) (ih trivial inner)]
    exact ih' (fun turn member => stays ▸ known turn member) later
  | stopped idle _ ih =>
    obtain ⟨found, known⟩ := List.forall_mem_cons.mp known
    change (refreshOne _ _ >>= _ : Update Unit) _ = _
    rw [bind_apply, refreshOne_of_run found ((runs_eq found).symm.trans idle) (ih trivial (Nat.max_le.mp shallow).1)]
  | steps steps _ ih => exact (steps.run_eq _).trans (ih trivial shallow)
  | broken evaluated =>
    change ((evaluate _).attempt >>= _ : Update Unit) _ = _
    rw [bind_apply, evaluated]
  | sets _ returned _ ih ih' =>
    obtain ⟨inner, later⟩ := Nat.max_le.mp shallow
    obtain ⟨below, rfl⟩ := Nat.exists_eq_add_of_le' (Nat.lt_of_lt_of_le (Nat.succ_pos _) inner)
    exact (run_set_ok (ih trivial (Nat.le_of_succ_le_succ inner)) returned _).trans (ih' trivial later)
  | cut _ unreturned ih =>
    obtain ⟨inner, _⟩ := Nat.max_le.mp shallow
    obtain ⟨below, rfl⟩ := Nat.exists_eq_add_of_le' (Nat.lt_of_lt_of_le (Nat.succ_pos _) inner)
    exact run_set_error (ih trivial (Nat.le_of_succ_le_succ inner)) unreturned _

/-! ### Every call comes to an end -/

theorem Quiet.of_eq (quiet : s.Quiet) (same : s'.scope.frame.registrations = s.scope.frame.registrations) : s'.Quiet :=
  fun r member => quiet r (same ▸ member)

theorem Quiet.marked (quiet : s.Quiet) (i : Nat) (running : Bool) : (s.marked i running).Quiet := by
  intro r member
  obtain ⟨j, found⟩ := List.getElem?_of_mem member
  change (s.scope.frame.registrations.modify i _)[j]? = some r at found
  rw [List.getElem?_modify] at found
  obtain ⟨r', found', rfl⟩ := Option.map_eq_some_iff.mp found
  split <;> exact quiet r' (List.mem_of_getElem? found')

/-- Whether a task comes to an end, with or without returning. -/
def Concludes (task : Task) (s : Session) : Prop := ∃ course outcome s', Happens task s course outcome s'

variable {m : Nat}

theorem concludes_perform (sets : ∀ s : Session, s.Quiet → s.idle = m → ∀ name v, Concludes (.set name v) s)
    (silent : script.Quiet) (quiet : s.Quiet) (size : s.idle = m) : Concludes (.perform script) s := by
  have onward {script script' : Script} {s s' : Session} (steps : Steps script s script' s')
      (later : Concludes (.perform script') s') : Concludes (.perform script) s := by
    obtain ⟨course, outcome, s'', later⟩ := later
    exact ⟨course, outcome, s'', .steps steps later⟩
  induction silent generalizing s with
  | done => exact ⟨_, _, _, .done s⟩
  | fail e => exact ⟨_, _, _, .fail e s⟩
  | note e _ ih => exact onward (.note e _ s) (ih quiet size)
  | parameter name _ ih => exact onward (.parameter name _ s) (ih _ quiet size)
  | define f _ ih => exact onward (.define f _ s) (ih quiet size)
  | evaluate t _ ih =>
    rcases attempted : (evaluate t).attempt s with ⟨f | o, s₁⟩
    · exact ⟨_, _, _, .broken attempted⟩
    · have evaluated : Returns (evaluate t) s o s₁ := by
        obtain ⟨o', same, returned⟩ := returns_attempt.mp (Returns.value attempted)
        cases same
        exact returned
      have stays := registrations_evaluate evaluated
      exact onward (.evaluate evaluated) (ih o (quiet.of_eq stays) ((idle_congr stays).trans size))
  | set name value _ ih =>
    obtain ⟨inner, ended, s₁, call⟩ := sets s quiet size name value
    cases returned : handled ended with
    | error f => exact ⟨_, _, _, .cut call returned⟩
    | ok o =>
      have stays := call.registrations trivial returned
      obtain ⟨course, outcome, s', later⟩ := ih o (quiet.of_eq stays) ((idle_congr stays).trans size)
      exact ⟨_, _, _, .sets call returned later⟩

theorem concludes_visit (fewer : ∀ s : Session, s.Quiet → s.idle < m → ∀ name v, Concludes (.set name v) s)
    (quiet : s.Quiet) (size : s.idle = m) (known : (Task.visit turns).Known s) : Concludes (.visit turns) s := by
  induction turns generalizing s with
  | nil => exact ⟨_, _, _, .ends s⟩
  | cons turn turns ih =>
    obtain ⟨r, i⟩ := turn
    obtain ⟨found, known⟩ := List.forall_mem_cons.mp known
    cases running : s.runs i with
    | true =>
      obtain ⟨course, outcome, s', later⟩ := ih quiet size known
      exact ⟨_, _, _, .passed running later⟩
    | false =>
      have idle := (runs_eq found).symm.trans running
      have marked : (s.marked i true).idle + 1 = s.idle := idle_marked found idle
      have silent : r.script.Quiet := r.quiet_script (quiet r (List.mem_of_getElem? found))
      obtain ⟨inner, ended, s₁, call⟩ := concludes_perform (fun s quiet same => fewer s quiet (by omega)) silent
        (quiet.marked i true) rfl
      rcases ended with f | ⟨⟩
      · exact ⟨_, _, _, .stopped running call⟩
      · have stays := call.unmark found running
        obtain ⟨course, outcome, s', later⟩ := ih (quiet.of_eq stays) ((idle_congr stays).trans size)
          fun turn member => stays ▸ known turn member
        exact ⟨_, _, _, .fired running call later⟩

/-- The induction is on the registrations that are idle, as each callback has one fewer of them than the call
that runs it. -/
theorem concludes_set (quiet : s.Quiet) (name : Text) (v : Float) : Concludes (.set name v) s := by
  induction size : s.idle using Nat.strongRecOn generalizing s name v with
  | ind m ih =>
    obtain ⟨course, outcome, s', visit⟩ := concludes_visit (fun s quiet fewer name v => ih s.idle fewer quiet name v rfl)
      (quiet.of_eq rfl : (s.stored name v).Quiet) size (known_readers s name v)
    exact ⟨_, _, _, .set visit⟩

theorem Happens.setWithin_eq {course : Course} (happens : Happens (.set name v) s course outcome s') {depth : Nat}
    (enough : s.scope.frame.registrations.length + 1 ≤ depth) : setWithin depth name v s = (outcome, s') := by
  have shallow : course.height ≤ s.scope.frame.registrations.length :=
    Nat.le_trans (happens.height_le trivial) List.countP_le_length
  obtain ⟨below, rfl⟩ := Nat.exists_eq_add_of_le' (Nat.lt_of_lt_of_le (Nat.succ_pos _) enough)
  exact happens.within_eq trivial (Nat.le_trans shallow (Nat.le_of_succ_le_succ enough))

/-- Setting a parameter comes to an end on any graph of dependencies, cycles included, as long as callbacks
register nothing. Its course is finite, no callback in it runs inside itself, and calls nest at most one deeper
than there are registrations, so no bound on their nesting shows. The call returns unless an evaluation in its
course does not. -/
theorem set_concludes (s : Session) (quiet : s.Quiet) (name : Text) (v : Float) :
    ∃ course outcome s', Happens (.set name v) s course outcome s' ∧
      (∀ running, (∀ i ∈ running, s.runs i = true) → course.Apart running) ∧
      course.height + 1 ≤ s.scope.frame.registrations.length + 1 ∧
      (∀ depth, s.scope.frame.registrations.length + 1 ≤ depth → setWithin depth name v s = (outcome, s')) ∧
      Session.set name v s = (outcome, s') ∧
      ((∃ o, Returns (Session.set name v) s o s') ∨
        ∃ f, outcome = .error f ∧ (∀ e, f ≠ .error e) ∧ course.Breaks f) := by
  obtain ⟨course, outcome, s', happens⟩ := concludes_set quiet name v
  have shallow : course.height ≤ s.scope.frame.registrations.length :=
    Nat.le_trans (happens.height_le trivial) List.countP_le_length
  have top : Session.set name v s = (outcome, s') := by
    rw [set_eq]
    exact happens.setWithin_eq (Nat.le_add_right _ _)
  refine ⟨course, outcome, s', happens, fun running marked => happens.apart trivial marked, Nat.succ_le_succ shallow,
    fun depth enough => happens.setWithin_eq enough, top, ?_⟩
  cases returned : handled outcome with
  | ok o =>
    refine .inl ⟨o, ?_⟩
    rcases outcome with (e | _ | _) | ⟨⟩ <;> cases returned
    · exact .error top
    · exact .value top
  | error f =>
    obtain ⟨same, other⟩ := eq_of_handled_error returned
    exact .inr ⟨f, same, other, happens.breaks returned⟩

theorem quiet_assign (name : Text) (v : Float) : (Script.assign name v).Quiet :=
  .set name v fun
    | .ok _ => .done
    | .error e => .fail e

/-- Two parameters that are set whenever the other one is, one of them also by itself. -/
theorem set_concludes_cycle :
    let reader (read assigned : String) : Registration :=
      { text := chars read, reads := [chars read], callback := Script.assign (chars assigned) }
    let frame : Frame := { registrations := [reader "a" "b", reader "b" "a", reader "a" "a"] }
    let s : Session := { scope := { dialect := .hspice, frame } }
    ∃ course outcome s', Happens (.set (chars "a") 1) s course outcome s' ∧ course.Apart [] ∧ course.height + 1 ≤ 4 ∧
      Session.set (chars "a") 1 s = (outcome, s') := by
  intro reader frame s
  have quiet : s.Quiet := by
    intro r member v
    simp only [s, frame, List.mem_cons, List.not_mem_nil, or_false] at member
    rcases member with rfl | rfl | rfl <;> exact quiet_assign _ v
  obtain ⟨course, outcome, s', happens, apart, shallow, _, same, _⟩ := set_concludes s quiet (chars "a") 1
  exact ⟨course, outcome, s', happens, apart [] nofun, shallow, same⟩

/-- A call does not return if an evaluation in it does not, as here between bounds that are no numbers. -/
theorem not_returns_set :
    ¬ ∀ s : Session, s.Quiet → ∀ name v, ∃ o s', Returns (Session.set name v) s o s' := by
  intro every
  let bounded : Registration := { text := chars "limit(1,x,x)", reads := [chars "x"], callback := fun _ => .done }
  let s : Session := { scope := (Scope.standard .spice3f5).register bounded }
  have quiet : s.Quiet := by
    intro r member v
    rw [show r = bounded from List.mem_singleton.mp member]
    exact .done
  have stops : (Session.set (chars "x") (0 / 0) s).1 = .error .violated := by decide +kernel
  obtain ⟨o, s', returned⟩ := every s quiet (chars "x") (0 / 0)
  rw [returned.apply] at stops
  cases o <;> cases stops

end Session

end Netlist
