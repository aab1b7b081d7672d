import Netlist.Proofs.Expression.Lockstep
import Netlist.Proofs.Expression.Sound

/-!
What a run over a text passes on. Functions over texts get parts of the text only, so a run ends
with no other faults than those of the values it asks for, of the calls that it can make, and of the
numbers in the text.
-/
namespace Netlist
variable {σ : Type}

instance (t text : Text) : Decidable (PartOf t text) := inferInstanceAs (Decidable (_ ∧ _))

theorem PartOf.mem {t text : Text} (part : PartOf t text) {c : Char} (member : c ∈ t) : c ∈ text :=
  part.1.subset member

inductive Paired (faults : Fault → Fault → Prop) {α β : Type} (V : α → β → Prop) :
    Except Fault α → Except Fault β → Prop
  | value {a b} (related : V a b) : Paired faults V (.ok a) (.ok b)
  | fault {f g} (instead : faults f g) : Paired faults V (.error f) (.error g)

theorem Paired.eq {α : Type} {a b : Except Fault α} (same : Paired Eq Eq a b) : a = b := by
  rcases same with ⟨rfl⟩ | ⟨rfl⟩ <;> rfl

def inStep (faults : Fault → Fault → Prop) (refl : ∀ f, faults f f) : Correspondence σ σ where
  value := Eq
  holds V m n := ∀ s, Paired faults V (m s).1 (n s).1 ∧ (m s).2 = (n s).2
  applied := apply_eq_of_forall₂
  pure related s := ⟨.value related, rfl⟩
  bind := by
    intro α β α' β' V W m n k l first next s
    obtain ⟨outcome, after⟩ := first s
    rw [Eval.bind_apply, Eval.bind_apply]
    rcases eq : m s with ⟨f | a, s'⟩ <;> rcases eq' : n s with ⟨g | b, s''⟩
    all_goals rw [eq, eq'] at outcome after; cases after
    · rcases outcome with _ | ⟨instead⟩
      exact ⟨.fault instead, rfl⟩
    · cases outcome
    · cases outcome
    · rcases outcome with ⟨related⟩
      exact next a b related s'
  fail f s := ⟨.fault (refl f), rfl⟩

theorem inStep_refl {faults : Fault → Fault → Prop} (refl : ∀ f, faults f f) {α : Type} {V : α → α → Prop} (same : ∀ a, V a a)
    (m : Eval σ α) : (inStep faults refl).holds V m m := fun s => by
  refine ⟨?_, rfl⟩
  rcases (m s).1 with f | a
  · exact .fault (refl f)
  · exact .value (same a)

def Resolver.confined (r : Resolver σ) (text : Text) : Resolver σ where
  parameter := r.parameter
  function? := r.function?
  operators := r.operators
  call f arguments :=
    match arguments with
    | .values vs => r.call f (.values vs)
    | .raw ts => if ∀ t ∈ ts, PartOf t text then r.call f (.raw ts) else Eval.raise .empty
  unknown := r.unknown
  note := r.note

structure Resolver.EndsWith (r : Resolver σ) (text : Text) (bad : Fault → Prop) : Prop where
  error : ∀ e, bad (.error e)
  letter : '\u212a' ∈ text → bad .violated
  parameter : ∀ name, Eval.Ends (r.parameter name text) (fun _ => True) bad
  callValues : ∀ f vs, r.Offers f → Eval.Ends (r.call f (.values vs)) (fun _ => True) bad
  callTexts : ∀ f ts, r.Offers f → (∀ t ∈ ts, PartOf t text) → Eval.Ends (r.call f (.raw ts)) (fun _ => True) bad
  unknown : ∀ name, Eval.Ends (r.unknown name text) (fun _ => True) bad
  note : ∀ name, Eval.Ends (r.note name) (fun _ => True) bad

namespace Machine
variable {r : Resolver σ} {text : Text} {bad : Fault → Prop}

theorem run_confined (r : Resolver σ) (text : Text) : run (r.confined text) text = run r text := by
  have alike {α : Type} {V : α → α → Prop} := inStep_refl (σ := σ) (V := V) fun f : Fault => rfl
  have related : (r.confined text).Related (inStep Eq fun _ => rfl) text r := {
    function? _ := rfl
    operators _ := rfl
    parameter name := alike (fun _ => rfl) _
    unknown name := alike (fun _ => rfl) _
    note name := alike (fun _ => trivial) _
    callValues f vs ws _ same := by
      obtain rfl : vs = ws := by rwa [show (inStep Eq _).value = Eq from rfl, List.forall₂_eq_eq_eq] at same
      exact alike (fun _ => rfl) _
    callTexts f ts _ parts := by
      change (inStep Eq _).holds Eq (if ∀ t ∈ ts, PartOf t text then r.call f (.raw ts) else Eval.raise .empty) _
      rw [if_pos parts]
      exact alike (fun _ => rfl) _ }
  funext s
  obtain ⟨outcome, after⟩ := Correspondence.holds_run related s
  exact Prod.ext outcome.eq after

theorem run_ends (parts : r.EndsWith text bad) : Eval.Ends (run r text) (fun _ => True) bad := by
  rw [← run_confined]
  intro s
  have sound := run_sound (r.confined text) text
  rcases outcome : run (r.confined text) text s with ⟨fault | v, after⟩
  · rcases sound.of_error outcome with ⟨e, rfl⟩ | ⟨rfl, letter⟩ | ⟨name, s, failed⟩ | ⟨f, arguments, s, offered, failed⟩ |
      ⟨name, s, failed⟩ | ⟨name, s, failed⟩
    · exact parts.error e
    · exact parts.letter letter
    · exact (parts.parameter name).of_error (Prod.ext failed rfl)
    · cases arguments with
      | values vs => exact (parts.callValues f vs offered).of_error (Prod.ext failed rfl)
      | raw ts =>
        change ((if ∀ t ∈ ts, PartOf t text then r.call f (.raw ts) else Eval.raise .empty) s).1 = _ at failed
        split at failed
        · next inside => exact (parts.callTexts f ts offered inside).of_error (Prod.ext failed rfl)
        · cases failed
          exact parts.error _
    · exact (parts.unknown name).of_error (Prod.ext failed rfl)
    · exact (parts.note name).of_error (Prod.ext failed rfl)
  · trivial

end Machine

end Netlist
