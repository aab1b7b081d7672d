import Netlist.Expression.Error

/-!
Computations that keep their state when they fail: how a sequence of two runs, and what a
computation ends with, be it a value or a fault.
-/
namespace Netlist.Eval
variable {σ α β : Type}

theorem bind_apply (m : Eval σ α) (k : α → Eval σ β) (s : σ) :
    (m >>= k) s = match m s with
      | (.ok a, s) => k a s
      | (.error fault, s) => (.error fault, s) := by
  change ExceptT.bind m k s = _
  simp only [ExceptT.bind, ExceptT.mk, bind, StateT.bind]
  rcases m s with ⟨_ | _, _⟩ <;> rfl

theorem bind_ok {m : Eval σ α} {k : α → Eval σ β} {s s' : σ} {b : β} (ok : (m >>= k) s = (.ok b, s')) :
    ∃ a s₁, m s = (.ok a, s₁) ∧ k a s₁ = (.ok b, s') := by
  rw [bind_apply] at ok
  rcases eq : m s with ⟨f | a, s₁⟩
  · rw [eq] at ok
    cases ok
  · rw [eq] at ok
    exact ⟨a, s₁, rfl, ok⟩

@[simp] theorem raise_apply (e : EvalError) (s : σ) : (raise e : Eval σ α) s = (.error (.error e), s) := rfl

@[simp] theorem raise_bind (e : EvalError) (k : α → Eval σ β) : (raise e : Eval σ α) >>= k = raise e := rfl

/-- Two sequences agree if their second parts do on everything that the first one can end with. -/
theorem bind_congr {m : Eval σ α} {f g : α → Eval σ β}
    (same : ∀ s a s', m s = (.ok a, s') → f a s' = g a s') : m >>= f = m >>= g := by
  funext s
  rw [bind_apply, bind_apply]
  rcases eq : m s with ⟨_ | a, s'⟩
  · rfl
  · exact same s a s' eq

def Ends (m : Eval σ α) (good : α → Prop) (bad : Fault → Prop) : Prop :=
  ∀ s, match m s with
    | (.ok a, _) => good a
    | (.error f, _) => bad f

variable {good : α → Prop} {bad : Fault → Prop}

theorem Ends.pure {a : α} (holds : good a) : Ends (pure a : Eval σ α) good bad := fun _ => holds

theorem Ends.raise {e : EvalError} (holds : bad (.error e)) : Ends (raise e : Eval σ α) good bad :=
  fun _ => holds

theorem Ends.bind {Q : α → Prop} {last : β → Prop} {m : Eval σ α} {k : α → Eval σ β}
    (first : Ends m Q bad) (next : ∀ a, Q a → Ends (k a) last bad) : Ends (m >>= k) last bad := by
  intro s
  have at_s := first s
  rw [bind_apply]
  rcases eq : m s with ⟨_ | a, s'⟩
  · rw [eq] at at_s
    exact at_s
  · rw [eq] at at_s
    exact next a at_s s'

theorem Ends.mono {weaker : α → Prop} {m : Eval σ α} (ends : Ends m good bad)
    (imp : ∀ a, good a → weaker a) : Ends m weaker bad := by
  intro s
  have at_s := ends s
  rcases eq : m s with ⟨_ | a, s'⟩
  · rw [eq] at at_s
    exact at_s
  · rw [eq] at at_s
    exact imp a at_s

theorem Ends.faults {ill : Fault → Prop} {m : Eval σ α} (ends : Ends m good bad) (imp : ∀ f, bad f → ill f) :
    Ends m good ill := by
  intro s
  have at_s := ends s
  rcases eq : m s with ⟨f | _, s'⟩
  · rw [eq] at at_s
    exact imp f at_s
  · rw [eq] at at_s
    exact at_s

theorem Ends.both {also : α → Prop} {ill : Fault → Prop} {m : Eval σ α} (ends : Ends m good bad)
    (other : Ends m also ill) : Ends m (fun a => good a ∧ also a) bad := by
  intro s
  have first := ends s
  have second := other s
  rcases eq : m s with ⟨_ | a, s'⟩
  · rw [eq] at first
    exact first
  · rw [eq] at first second
    exact ⟨first, second⟩

theorem Ends.of_ok {m : Eval σ α} (ends : Ends m good bad) {s s' : σ} {a : α} (ok : m s = (.ok a, s')) :
    good a := by
  have at_s := ends s
  rw [ok] at at_s
  exact at_s

theorem Ends.of_error {m : Eval σ α} (ends : Ends m good bad) {s s' : σ} {f : Fault} (failed : m s = (.error f, s')) :
    bad f := by
  have at_s := ends s
  rw [failed] at at_s
  exact at_s

def handled : Except Fault α → Except Fault (Except EvalError α)
  | .ok a => .ok (.ok a)
  | .error (.error e) => .ok (.error e)
  | .error f => .error f

theorem handled_error_ok {f : Fault} {o : Except EvalError α} (returned : handled (.error f : Except Fault α) = .ok o) :
    ∃ e, f = .error e := by
  cases f with
  | error e => exact ⟨e, rfl⟩
  | violated | exhausted => cases returned

theorem eq_of_handled_error {o : Except Fault α} {f : Fault} (passed : handled o = .error f) :
    o = .error f ∧ ∀ e, f ≠ .error e := by
  rcases o with (e | _ | _) | a <;> cases passed <;> exact ⟨rfl, nofun⟩

theorem attempt_apply (m : Eval σ α) (s : σ) : m.attempt s = (handled (m s).1, (m s).2) := by
  unfold attempt
  rcases m s with ⟨(e | _ | _) | a, s'⟩ <;> rfl

theorem attempt_ok {m : Eval σ α} {s s' : σ} {a : α} (ok : m.attempt s = (.ok (.ok a), s')) : m s = (.ok a, s') := by
  unfold attempt at ok
  rcases eq : m s with ⟨(e | _ | _) | b, s₁⟩
  all_goals rw [eq] at ok; cases ok
  rfl

/-! ### Computations that return -/

inductive Returns (m : Eval σ α) (s : σ) : Except EvalError α → σ → Prop
  | value {a : α} {s' : σ} (ok : m s = (.ok a, s')) : Returns m s (.ok a) s'
  | error {e : EvalError} {s' : σ} (failed : m s = (.error (.error e), s')) : Returns m s (.error e) s'

variable {m : Eval σ α} {k : α → Eval σ β} {s s' : σ}

theorem Returns.apply {outcome : Except EvalError α} (returned : Returns m s outcome s') :
    m s = (outcome.mapError .error, s') := by
  cases returned with
  | value ok => exact ok
  | error failed => exact failed

theorem Returns.of_apply {outcome : Except EvalError α}
    (apply : m s = (outcome.mapError .error, s')) : Returns m s outcome s' := by
  cases outcome with
  | ok a => exact .value apply
  | error e => exact .error apply

/-- What a computation returns is what it ends with, wherever that has been started. -/
theorem returns_congr {m' : Eval σ α} {t : σ} {outcome : Except EvalError α} (same : m s = m' t) :
    Returns m s outcome s' ↔ Returns m' t outcome s' :=
  ⟨fun returned => .of_apply (same ▸ returned.apply), fun returned => .of_apply (same.trans returned.apply)⟩

theorem returns_pure {a : α} {outcome : Except EvalError α} : Returns (pure a) s outcome s' ↔ outcome = .ok a ∧ s' = s := by
  constructor
  · rintro (ok | failed)
    · cases ok
      exact ⟨rfl, rfl⟩
    · cases failed
  · rintro ⟨rfl, rfl⟩
    exact .value rfl

theorem returns_bind {outcome : Except EvalError β} : Returns (m >>= k) s outcome s' ↔
    (∃ e, outcome = .error e ∧ Returns m s (.error e) s') ∨
      ∃ a s₁, Returns m s (.ok a) s₁ ∧ Returns (k a) s₁ outcome s' := by
  constructor
  · intro returned
    have whole := returned.apply
    rw [bind_apply] at whole
    rcases first : m s with ⟨(e | _ | _) | a, s₁⟩
    all_goals rw [first] at whole
    · cases outcome <;> cases whole
      exact .inl ⟨e, rfl, .error first⟩
    · cases outcome <;> cases whole
    · cases outcome <;> cases whole
    · exact .inr ⟨a, s₁, .value first, .of_apply whole⟩
  · rintro (⟨e, rfl, first⟩ | ⟨a, s₁, first, second⟩)
    · exact .error (by rw [bind_apply, first.apply]; rfl)
    · exact .of_apply (by rw [bind_apply, first.apply]; exact second.apply)

theorem returns_attempt {outcome : Except EvalError (Except EvalError α)} :
    Returns m.attempt s outcome s' ↔ ∃ o, outcome = .ok o ∧ Returns m s o s' := by
  constructor
  · intro returned
    have whole := returned.apply
    rw [attempt_apply] at whole
    rcases first : m s with ⟨(e | _ | _) | a, s₁⟩
    all_goals rw [first] at whole; cases outcome <;> cases whole
    · exact ⟨_, rfl, .error first⟩
    · exact ⟨_, rfl, .value first⟩
  · rintro ⟨o, rfl, first⟩
    refine .value ?_
    rw [attempt_apply, first.apply]
    cases o <;> rfl

theorem returns_attempt_bind {k : Except EvalError α → Eval σ β} {outcome : Except EvalError β} :
    Returns (m.attempt >>= k) s outcome s' ↔ ∃ o s₁, Returns m s o s₁ ∧ Returns (k o) s₁ outcome s' := by
  rw [returns_bind]
  constructor
  · rintro (⟨e, _, failed⟩ | ⟨o, s₁, first, second⟩)
    · obtain ⟨_, absent, _⟩ := returns_attempt.mp failed
      cases absent
    · obtain ⟨o', same, inner⟩ := returns_attempt.mp first
      cases same
      exact ⟨o, s₁, inner, second⟩
  · rintro ⟨o, s₁, first, second⟩
    exact .inr ⟨o, s₁, returns_attempt.mpr ⟨o, rfl, first⟩, second⟩

theorem returns_ofExcept {o outcome : Except EvalError α} : Returns (ofExcept o) s outcome s' ↔ outcome = o ∧ s' = s := by
  constructor
  · rintro (ok | failed)
    · cases o <;> cases ok
      exact ⟨rfl, rfl⟩
    · cases o <;> cases failed
      exact ⟨rfl, rfl⟩
  · rintro ⟨rfl, rfl⟩
    cases outcome with
    | ok a => exact .value rfl
    | error e => exact .error rfl

end Netlist.Eval
