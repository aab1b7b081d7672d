import Netlist.Proofs.Expression.Firing

/-!
Definitions of parameters by expressions that fail. The expression is evaluated and its names are collected
before anything changes, and it is registered after the parameter is set. So a failure changes the scope only
if it comes from what is refreshed in between.
-/
namespace Netlist.Session
open Eval

variable {s s' : Session} {name t : Text} {e : EvalError} {depth : Nat}

/-- How a parameter fails to be defined by an expression, while callbacks nest up to a depth: the expression has no
value, its names cannot be collected, or its value is stored and a registration that reads the parameter fails. -/
inductive DeriveFails (depth : Nat) (name t : Text) (s : Session) : EvalError → Session → Prop
  | unevaluated {e : EvalError} {s' : Session} (evaluated : Returns (evaluate t) s (.error e) s') :
      DeriveFails depth name t s e s'
  | unread {v : Float} {e : EvalError} {s' : Session} (evaluated : Returns (evaluate t) s (.ok v) s')
      (unread : s.scope.freeNames t = .error (.error e)) : DeriveFails depth name t s e s'
  | unrefreshed {v : Float} {names : FreeNames} {e : EvalError} {s₁ s' : Session}
      (evaluated : Returns (evaluate t) s (.ok v) s₁) (read : s.scope.freeNames t = .ok names)
      (visits : Visits (setWithin depth) (s.readers name) (s₁.stored name v) (.error e) s') :
      DeriveFails depth name t s e s'

/-! ### The steps of a definition -/

theorem scope_evaluate {o : Except EvalError Float} (evaluated : Returns (evaluate t) s o s') : s'.scope = s.scope :=
  congrArg (·.scope) (congrArg Prod.snd evaluated.apply).symm

theorem readsOf_ok {reads : List Text} : Returns (readsOf t) s (.ok reads) s' ↔
    s' = s ∧ ∃ names, s.scope.freeNames t = .ok names ∧ names.parameters = reads := by
  constructor
  · intro returned
    have apply := returned.apply
    unfold readsOf at apply
    split at apply <;> cases apply
    next names read => exact ⟨rfl, names, read, rfl⟩
  · rintro ⟨rfl, names, read, rfl⟩
    refine .value ?_
    unfold readsOf
    rw [read]

theorem readsOf_error : Returns (readsOf t) s (.error e) s' ↔ s' = s ∧ s.scope.freeNames t = .error (.error e) := by
  constructor
  · intro returned
    have apply := returned.apply
    unfold readsOf at apply
    split at apply <;> cases apply
    next unread => exact ⟨rfl, unread⟩
  · rintro ⟨rfl, unread⟩
    refine .error ?_
    unfold readsOf
    rw [unread]

theorem readers_congr (same : s'.scope = s.scope) (name : Text) : s'.readers name = s.readers name := by
  rw [readers, readers, same]

theorem derive_eq (name t : Text) (s : Session) : derive name t s = deriveBy (setWithin s.depth) name t s := by
  unfold derive
  rw [bind_apply]
  rfl

theorem deriveBy_fails : Returns (deriveBy (setWithin (depth + 1)) name t) s (.error e) s' ↔
    DeriveFails depth name t s e s' := by
  constructor
  · intro returned
    rcases returns_bind.mp returned with ⟨_, same, evaluated⟩ | ⟨v, s₁, evaluated, reading⟩
    · cases same
      exact .unevaluated evaluated
    have scope := scope_evaluate evaluated
    rcases returns_bind.mp reading with ⟨_, same, failed⟩ | ⟨reads, s₂, returned_reads, setting⟩
    · cases same
      obtain ⟨rfl, unread⟩ := readsOf_error.mp failed
      exact .unread evaluated (scope ▸ unread)
    obtain ⟨rfl, names, read, rfl⟩ := readsOf_ok.mp returned_reads
    rw [scope] at read
    rcases returns_bind.mp setting with ⟨_, same, failed⟩ | ⟨⟨⟩, s₃, _, registering⟩
    · cases same
      exact .unrefreshed evaluated read (readers_congr scope name ▸ returns_setWithin_succ.mp failed)
    · cases registering with
      | error registered => cases registered
  · rintro (evaluated | ⟨evaluated, unread⟩ | ⟨evaluated, read, visits⟩)
    · exact returns_bind.mpr (.inl ⟨_, rfl, evaluated⟩)
    · rw [← scope_evaluate evaluated] at unread
      have failed := readsOf_error.mpr ⟨rfl, unread⟩
      exact returns_bind.mpr (.inr ⟨_, _, evaluated, returns_bind.mpr (.inl ⟨_, rfl, failed⟩)⟩)
    · rw [← scope_evaluate evaluated] at read
      have readers := readers_congr (scope_evaluate evaluated) name
      have collected := readsOf_ok.mpr ⟨rfl, _, read, rfl⟩
      have failed := returns_setWithin_succ.mpr (readers ▸ visits)
      exact returns_bind.mpr (.inr ⟨_, _, evaluated, returns_bind.mpr (.inr ⟨_, _, collected,
        returns_bind.mpr (.inl ⟨_, rfl, failed⟩)⟩)⟩)

/-! ### What a failure leaves behind -/

theorem Extends.registrations_eq (more : Extends s s')
    (length : s'.scope.frame.registrations.length = s.scope.frame.registrations.length) :
    s'.scope.frame.registrations = s.scope.frame.registrations := by
  obtain ⟨added, same, _⟩ := more
  rw [same, List.length_append] at length
  rw [same, List.eq_nil_of_length_eq_zero (by omega : added.length = 0), List.append_nil]

def RefreshFails (depth : Nat) (name t : Text) (s : Session) (e : EvalError) (s' : Session) : Prop :=
  ∃ v s₁, Returns (evaluate t) s (.ok v) s₁ ∧ s₁.scope = s.scope ∧
    Visits (setWithin depth) (s.readers name) (s₁.stored name v) (.error e) s' ∧ s₁.Extends s'

/-- A failure leaves the scope as it was unless a registration fails; no registration is lost, and none is marked. -/
theorem DeriveFails.scope (fails : DeriveFails depth name t s e s') :
    s'.scope = s.scope ∨ RefreshFails depth name t s e s' := by
  cases fails with
  | unevaluated evaluated => exact .inl (scope_evaluate evaluated)
  | unread evaluated _ => exact .inl (scope_evaluate evaluated)
  | unrefreshed evaluated read visits =>
    have scope := scope_evaluate evaluated
    have failed := returns_setWithin_succ.mpr (readers_congr scope name ▸ visits)
    exact .inr ⟨_, _, evaluated, scope, visits, extending_setWithin _ _ _ _ _ _ failed⟩

/-- Nothing fails behind the parameter if no registration reads it. -/
theorem RefreshFails.readers_ne_nil (fails : RefreshFails depth name t s e s') : s.readers name ≠ [] := by
  obtain ⟨v, s₁, _, _, visits, _⟩ := fails
  intro unread
  rw [unread] at visits
  cases visits

/-- The definition of a parameter by an expression fails, at the top or, at any depth, inside a callback, exactly if its
expression has no value, its names cannot be collected, or a registration that reads the parameter fails when it
is refreshed. In the last case alone the parameter is stored and the expression is not registered. Otherwise,
and so always if no registration reads the parameter, the scope is what it was. -/
theorem derive_fails (s : Session) (name t : Text) (e : EvalError) (s' : Session) :
    (Returns (derive name t) s (.error e) s' ↔ DeriveFails (s.depth - 1) name t s e s') ∧
      ∀ depth, (Returns (deriveBy (setWithin (depth + 1)) name t) s (.error e) s' ↔ DeriveFails depth name t s e s') ∧
        (DeriveFails depth name t s e s' → s'.scope = s.scope ∨ RefreshFails depth name t s e s') ∧
        (DeriveFails depth name t s e s' → s.readers name = [] → s'.scope = s.scope) := by
  have deep : s.depth = s.depth - 1 + 1 := (Nat.succ_pred_eq_of_pos (Nat.succ_pos _)).symm
  refine ⟨?_, fun depth => ⟨deriveBy_fails, DeriveFails.scope, fun fails unread => ?_⟩⟩
  · rw [returns_congr (derive_eq name t s), deep, deriveBy_fails]
    rfl
  · exact fails.scope.resolve_right fun late => late.readers_ne_nil unread

/-- An expression without a value, in a scope with a registration that does not read the parameter. -/
theorem derive_fails_unknown :
    let watching : Registration := { text := chars "a", reads := [chars "a"], callback := fun _ => .done }
    let s : Session := { scope := (Scope.empty .hspice).register watching }
    ∃ s', Returns (derive (chars "p") (chars "b")) s (.error (.unknownParameter (chars "b") (chars "b"))) s' ∧
      s'.scope = s.scope := by
  intro watching s
  have failed : (derive (chars "p") (chars "b") s).1 = .error (.error (.unknownParameter (chars "b") (chars "b"))) := by
    decide +kernel
  have returned : Returns (derive (chars "p") (chars "b")) s (.error (.unknownParameter (chars "b") (chars "b")))
      (derive (chars "p") (chars "b") s).2 := .error (Prod.ext failed rfl)
  have unread : s.readers (chars "p") = [] := by
    have other : foldCase (chars "p") ≠ chars "a" := by decide +kernel
    simp [readers, s, watching, Scope.register, Scope.empty, Registration.readsName, other]
  obtain ⟨top, within⟩ := derive_fails s (chars "p") (chars "b") (.unknownParameter (chars "b") (chars "b")) _
  exact ⟨_, returned, (within _).2.2 (top.mp returned) unread⟩

/-- A registration that reads a parameter and fails leaves the parameter stored, and out of date after the next change. -/
theorem derive_not_atomic :
    let failing : Registration := { text := chars "p", reads := [chars "p"], callback := fun _ => .fail .empty }
    let s : Session := { scope := ((Scope.empty .hspice).store (chars "a") 1).register failing }
    ∃ s', Returns (derive (chars "p") (chars "a")) s (.error .empty) s' ∧ s.scope.parameter? (chars "p") = none ∧
      (s'.scope.parameter? (chars "p")).isSome = true ∧ s'.scope.frame.registrations = s.scope.frame.registrations ∧
      ∃ s'', Returns (Session.set (chars "a") 2) s' (.ok ()) s'' ∧
        ∀ u, s''.scope.parameter? (chars "p") = some u → (s''.scope.evaluate none (chars "a") {}).1 ≠ .ok u := by
  intro failing s
  let s' := (derive (chars "p") (chars "a") s).2
  let s'' := (Session.set (chars "a") 2 s').2
  have failed : (derive (chars "p") (chars "a") s).1 = .error (.error .empty) := by decide +kernel
  have returned : Returns (derive (chars "p") (chars "a")) s (.error .empty) s' := .error (Prod.ext failed rfl)
  have by_depth := (returns_congr (derive_eq _ _ s)).mp returned
  -- No registration is lost, and there are as many as before: the expression is not registered.
  have more : Extends s s' := extending_deriveBy (extending_setWithin _) _ _ s _ s' by_depth
  have stored : (Session.set (chars "a") 2 s').1 = .ok () := by decide +kernel
  have small : (s''.scope.parameter? (chars "p")).any (decide <| · < 2) = true := by decide +kernel
  have large : (s''.scope.evaluate none (chars "a") {}).1.toOption.any (decide <| · < 2) = false := by decide +kernel
  refine ⟨s', returned, Option.isNone_iff_eq_none.mp (by decide +kernel), by decide +kernel,
    more.registrations_eq (by decide +kernel), s'', .value (Prod.ext stored rfl), fun u stored value => ?_⟩
  rw [stored] at small
  rw [value] at large
  exact absurd (large.symm.trans small) Bool.false_ne_true

end Netlist.Session
