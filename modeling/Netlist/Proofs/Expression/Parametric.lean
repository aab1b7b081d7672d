import Mathlib.Data.List.Forall2
import Netlist.Proofs.Expression.Reading

/-!
The scan is parametric in the meaning of names. Two resolvers that know the same functions lead it
the same way, whatever values they give; so any relation between computations that holds of the
operations of two resolvers holds of their runs.
-/
namespace Netlist
variable {σ τ : Type}

/-- A relation between computations over two kinds of state, and between the values they work with.
It lets computations go on one after the other and fail in the same way, and no function tells
related values apart. -/
structure Correspondence (σ τ : Type) where
  value : Float → Float → Prop
  holds : {α β : Type} → (α → β → Prop) → Eval σ α → Eval τ β → Prop
  applied : ∀ (g : List Float → Float) {vs ws}, List.Forall₂ value vs ws → value (g vs) (g ws)
  pure : ∀ {α β : Type} {V : α → β → Prop} {a b}, V a b → holds V (pure a) (pure b)
  bind : ∀ {α β α' β' : Type} {V : α → β → Prop} {W : α' → β' → Prop} {m : Eval σ α} {n : Eval τ β} {k l},
    holds V m n → (∀ a b, V a b → holds W (k a) (l b)) → holds W (m >>= k) (n >>= l)
  fail : ∀ {α β : Type} {V : α → β → Prop} (fault : Fault), holds V (throw fault) (throw fault)

theorem apply_eq_of_forall₂ (g : List Float → Float) {vs ws : List Float} (same : List.Forall₂ Eq vs ws) : g vs = g ws := by
  rw [List.forall₂_eq_eq_eq] at same
  rw [same]

/-- Two resolvers have related operations, for the evaluation of a text: functions that the text can
call get related values, or parts of the text. -/
structure Resolver.Related (C : Correspondence σ τ) (text : Text) (r : Resolver σ) (s : Resolver τ) : Prop where
  function? : ∀ name, s.function? name = r.function? name
  operators : ∀ t, longestOperator? s.operators t = longestOperator? r.operators t
  parameter : ∀ name, C.holds C.value (r.parameter name text) (s.parameter name text)
  unknown : ∀ name, C.holds C.value (r.unknown name text) (s.unknown name text)
  note : ∀ name, C.holds (fun _ _ => True) (r.note name) (s.note name)
  callValues : ∀ f {vs ws}, r.Offers f → List.Forall₂ C.value vs ws →
    C.holds C.value (r.call f (.values vs)) (s.call f (.values ws))
  callTexts : ∀ f ts, r.Offers f → (∀ t ∈ ts, PartOf t text) →
    C.holds C.value (r.call f (.raw ts)) (s.call f (.raw ts))

def Operation.OfferedBy (r : Resolver σ) : Operation → Prop
  | named f | call (.function f) _ => r.Offers f
  | _ => True

namespace Correspondence
open Machine
variable {C : Correspondence σ τ} {text : Text} {r : Resolver σ} {s : Resolver τ}

theorem constant (C : Correspondence σ τ) (v : Float) : C.value v v := C.applied (fun _ => v) .nil

theorem applied₁ (g : Float → Float) {a b : Float} (h : C.value a b) : C.value (g a) (g b) :=
  C.applied (fun vs => g (vs.getD 0 0)) (.cons h .nil)

theorem applied₂ (g : Float → Float → Float) {a b a' b' : Float} (h : C.value a b) (h' : C.value a' b') :
    C.value (g a a') (g b b') :=
  C.applied (fun vs => g (vs.getD 0 0) (vs.getD 1 0)) (.cons h (.cons h' .nil))

theorem applied₃ (g : Float → Float → Float → Float) {a b c a' b' c' : Float} (h : C.value a a') (h' : C.value b b')
    (h'' : C.value c c') : C.value (g a b c) (g a' b' c') :=
  C.applied (fun vs => g (vs.getD 0 0) (vs.getD 1 0) (vs.getD 2 0)) (.cons h (.cons h' (.cons h'' .nil)))

theorem raise (C : Correspondence σ τ) {α β : Type} {V : α → β → Prop} (e : EvalError) :
    C.holds V (Eval.raise e) (Eval.raise e) :=
  C.fail (.error e)

theorem map {α β : Type} {V : α → β → Prop} {m : Eval σ Float} {n : Eval τ Float} (related : C.holds C.value m n)
    {k : Float → α} {l : Float → β} (next : ∀ v w, C.value v w → V (k v) (l w)) :
    C.holds V (do return k (← m)) (do return l (← n)) :=
  C.bind related fun v w values => C.pure (next v w values)

theorem holds_call (related : r.Related C text s) {f : Function} (offered : r.Offers f) {vs ws tail tail' : List Float}
    (arguments : List.Forall₂ C.value vs ws) (values : List.Forall₂ C.value tail tail') :
    C.holds (List.Forall₂ C.value) (do return (← r.call f (.values vs)) :: tail)
      (do return (← s.call f (.values ws)) :: tail') :=
  map (related.callValues f offered arguments) fun _ _ value => .cons value values

theorem holds_apply (related : r.Related C text s) {op : Operation} (offered : op.OfferedBy r) {vs ws : List Float}
    (values : List.Forall₂ C.value vs ws) :
    C.holds (List.Forall₂ C.value) (Machine.apply r text op vs) (Machine.apply s text op ws) := by
  cases op with
  | parenthesis => exact C.raise _
  | call callee base => exact C.raise _
  | question => exact C.raise _
  | unary op =>
    cases values with
    | nil => exact C.raise _
    | cons x values => exact C.pure (.cons (applied₁ op.apply x) values)
  | conditional =>
    rcases values with _ | ⟨b, _ | ⟨a, _ | ⟨c, values⟩⟩⟩
    · exact C.raise _
    · exact C.raise _
    · exact C.raise _
    · exact C.pure (.cons (applied₃ (fun c a b => if c != 0 then a else b) c a b) values)
  | named f =>
    rcases values with _ | ⟨b, _ | ⟨a, values⟩⟩
    · exact C.raise _
    · exact C.raise _
    · exact holds_call related offered (.cons a (.cons b .nil)) values
  | binary op =>
    rcases values with _ | ⟨b, _ | ⟨a, values⟩⟩
    · cases op <;> exact C.raise _
    · cases op <;> exact C.raise _
    · by_cases power : op = .power
      · subst power
        have plain := C.pure (List.Forall₂.cons (applied₂ Float.pow a b) values)
        simp only [Machine.apply, related.function?]
        cases function : r.function? (chars "pow") with
        | none => exact plain
        | some f =>
          dsimp only
          split
          · exact plain
          · exact holds_call related (.inl ⟨_, function⟩) (.cons a (.cons b .nil)) values
      · cases op <;> first | exact absurd rfl power | exact C.pure (.cons (applied₂ (BinaryOperator.apply _) a b) values)

theorem holds_unwind (related : r.Related C text s) (p : Operation → Bool) {stack : List Operation}
    (offered : ∀ op ∈ stack, op.OfferedBy r) {vs ws : List Float} (values : List.Forall₂ C.value vs ws) :
    C.holds (fun a b => b.1 = a.1 ∧ List.Forall₂ C.value a.2 b.2 ∧ ∀ op ∈ a.1, op.OfferedBy r)
      (Machine.unwind r text p stack vs) (Machine.unwind s text p stack ws) := by
  induction stack generalizing vs ws with
  | nil => exact C.pure ⟨rfl, values, offered⟩
  | cons op stack ih =>
    unfold Machine.unwind
    split
    · exact C.bind (holds_apply related (offered op List.mem_cons_self) values) fun _ _ values =>
        ih (fun op member => offered op (List.mem_cons_of_mem _ member)) values
    · exact C.pure ⟨rfl, values, offered⟩

structure Similar (C : Correspondence σ τ) (r : Resolver σ) (text : Text) (m : Machine) (ws : List Float) : Prop where
  expression : m.expression = text
  values : List.Forall₂ C.value m.values ws
  offered : ∀ op ∈ m.stack, op.OfferedBy r
  within : m.rest <:+ text

def Alike (C : Correspondence σ τ) (r : Resolver σ) (text : Text) (m n : Machine) : Prop :=
  ∃ ws, n = { m with values := ws } ∧ Similar C r text m ws

variable {m : Machine} {ws : List Float} {rest : Text}

theorem holds_reduceWhile (related : r.Related C text s) (similar : Similar C r text m ws) (p : Operation → Bool) :
    C.holds (Alike C r text) (m.reduceWhile r p) ({ m with values := ws }.reduceWhile s p) := by
  obtain ⟨rfl, values, offered, within⟩ := similar
  refine C.bind (holds_unwind related p offered values) fun left left' ⟨stack, values, offered⟩ => C.pure ?_
  exact ⟨left'.2, by simp [stack], rfl, values, offered, within⟩

private theorem alike_push {v w : Float} (similar : Similar C r text m ws) (value : C.value v w)
    (suffix : rest <:+ text) : Alike C r text ({ m with rest }.push v) (push { m with rest, values := ws } w) :=
  ⟨w :: ws, rfl, similar.expression, .cons value similar.values, similar.offered, suffix⟩

private theorem alike_await {op : Operation} (similar : Similar C r text m ws) (offered : op.OfferedBy r)
    (suffix : rest <:+ text) :
    Alike C r text ({ m with rest }.await op) (await { m with rest, values := ws } op) := by
  refine ⟨ws, rfl, similar.expression, similar.values, fun other member => ?_, suffix⟩
  rcases List.mem_cons.mp member with rfl | member
  · exact offered
  · exact similar.offered other member

private theorem Similar.pop {op : Operation} {stack : List Operation} (similar : Similar C r text m ws)
    (top : m.stack = op :: stack) : Similar C r text { m with stack } ws :=
  ⟨similar.expression, similar.values, fun op member => similar.offered op (top ▸ List.mem_cons_of_mem _ member),
    similar.within⟩

theorem holds_finishCall (related : r.Related C text s) (similar : Similar C r text m ws) {callee : Callee} {base : Nat}
    (offered : (Operation.call callee base).OfferedBy r) :
    C.holds (Alike C r text) (m.finishCall r callee base) (finishCall s { m with values := ws } callee base) := by
  have count := similar.values.length_eq
  unfold finishCall
  dsimp only
  rw [← count]
  split
  · exact C.raise _
  · have left := List.forall₂_drop (m.values.length - base) similar.values
    have arguments := List.rel_reverse (List.forall₂_take (m.values.length - base) similar.values)
    have dropped : Similar C r text { m with values := m.values.drop (m.values.length - base) }
        (ws.drop (m.values.length - base)) := ⟨similar.expression, left, similar.offered, similar.within⟩
    obtain rfl := similar.expression
    cases callee with
    | function f =>
      exact map (related.callValues f offered arguments) fun _ _ value => alike_push dropped value similar.within
    | unknown name => exact map (related.unknown name) fun _ _ value => alike_push dropped value similar.within
    | builtin f =>
      dsimp only
      split
      · exact C.pure (alike_push dropped (C.applied (fun vs => f.apply (vs.getD 0 0) (vs.getD 1 0)) arguments)
          similar.within)
      · exact C.raise _

theorem holds_close (related : r.Related C text s) (similar : Similar C r text m ws) :
    C.holds (Alike C r text) (m.close r) (close s { m with values := ws }) := by
  unfold close reduceGroup
  refine C.bind (holds_reduceWhile related similar _) fun m _ ⟨ws, same, similar⟩ => ?_
  subst same
  dsimp only
  split
  · next top => exact C.pure ⟨ws, rfl, similar.pop top⟩
  · next top => exact holds_finishCall related (similar.pop top) (similar.offered _ (top ▸ List.mem_cons_self))
  · exact C.raise _
  · exact C.raise _

theorem holds_comma (related : r.Related C text s) (similar : Similar C r text m ws) (offset : Nat) :
    C.holds (Alike C r text) (m.comma r offset) (comma s { m with values := ws } offset) := by
  unfold comma reduceGroup
  refine C.bind (holds_reduceWhile related similar _) fun m _ ⟨ws, same, similar⟩ => ?_
  subst same
  dsimp only
  split
  · exact C.pure ⟨ws, rfl, similar.expression, similar.values, similar.offered, similar.within⟩
  · exact C.raise _
  · exact C.raise _

theorem holds_colon (related : r.Related C text s) (similar : Similar C r text m ws) :
    C.holds (Alike C r text) (m.colon r) (colon s { m with values := ws }) := by
  unfold colon reduceGroup
  refine C.bind (holds_reduceWhile related similar _) fun m _ ⟨ws, same, similar⟩ => ?_
  subst same
  dsimp only
  split
  · next top => exact C.pure (alike_await (similar.pop top) trivial similar.within)
  · exact C.raise _

theorem holds_startCall (related : r.Related C text s) (similar : Similar C r text m ws)
    (inside : Follows m.rest text) (name : Text) :
    C.holds (Alike C r text) (m.startCall r name) (startCall s { m with values := ws } name) := by
  have count := similar.values.length_eq
  unfold startCall
  rw [related.function?]
  dsimp only
  cases function : r.function? name with
  | none => 
    dsimp only
    split
    · next f _ =>
      refine C.bind (related.note name) fun _ _ _ => ?_
      rw [← count]
      exact C.pure (alike_await similar trivial similar.within)
    · rw [← count]
      exact C.pure (alike_await similar trivial similar.within)
  | some f =>
    dsimp only
    split
    · split
      · exact C.raise _
      · next arguments rest captured =>
        have parts : ∀ t ∈ arguments, PartOf t text := fun t member => by
          rcases captureArguments_inside captured t member with done | part
          · cases done
          · exact inside.partOf part
        exact map (related.callTexts f arguments (.inl ⟨name, function⟩) parts) fun _ _ value =>
          alike_push similar value ((captureArguments_follows captured).1.trans inside.1)
    · rw [← count]
      exact C.pure (alike_await similar (.inl ⟨name, function⟩) similar.within)

private theorem holds_refer (related : r.Related C text s) (similar : Similar C r text m ws) {ts : List Text} {rest : Text}
    (parts : ∀ t ∈ ts, PartOf t text) (suffix : rest <:+ text) :
    C.holds (Alike C r text)
      (match r.function? ['@'] with
        | some f =>
          if f.isRaw then do return push { m with rest } (← r.call f (.raw ts))
          else Eval.raise (.function ['@'] (chars "reference lookups take raw arguments"))
        | none => do return push { m with rest } (← r.unknown ['@'] m.expression))
      (match s.function? ['@'] with
        | some f =>
          if f.isRaw then do return push { m with rest, values := ws } (← s.call f (.raw ts))
          else Eval.raise (.function ['@'] (chars "reference lookups take raw arguments"))
        | none => do return push { m with rest, values := ws } (← s.unknown ['@'] m.expression)) := by
  obtain rfl := similar.expression
  rw [related.function?]
  cases function : r.function? ['@'] with
  | none => exact map (related.unknown _) fun _ _ value => alike_push similar value suffix
  | some f =>
    dsimp only
    split
    · exact map (related.callTexts f ts (.inl ⟨_, function⟩) parts) fun _ _ value => alike_push similar value suffix
    · exact C.raise _

theorem holds_reference (related : r.Related C text s) (similar : Similar C r text m ws)
    (inside : Follows m.rest text) :
    C.holds (Alike C r text) (m.reference r) (reference s { m with values := ws }) := by
  have name : PartOf (m.rest.takeWhile isIdentifierPart) text := inside.partOf (List.takeWhile_prefix _).isInfix
  have behind : m.rest.dropWhile isIdentifierPart <:+ m.rest := List.dropWhile_suffix _
  unfold reference
  dsimp only
  split
  · exact C.raise _
  · split
    · next inner opened =>
      have inner_suffix : inner <:+ m.rest := (List.suffix_cons '[' inner).trans (opened ▸ behind)
      split
      · next rest closed =>
        have property : PartOf (trim (inner.takeWhile (· != ']'))) text :=
          inside.partOf (((trim_inside _).trans (List.takeWhile_prefix _).isInfix).trans inner_suffix.isInfix)
        have left : rest <:+ inner := (List.suffix_cons _ rest).trans (closed ▸ List.dropWhile_suffix _)
        simp only [pure_bind]
        refine holds_refer related similar ?_ ((left.trans inner_suffix).trans inside.1)
        simpa using ⟨name, property⟩
      · exact C.raise _
    · simp only [pure_bind]
      refine holds_refer related similar ?_ (behind.trans inside.1)
      simpa using name

theorem holds_numeral (similar : Similar C r text m ws) :
    C.holds (Alike C r text) (numeral m) (numeral { m with values := ws }) := by
  unfold numeral
  dsimp only
  split
  · next v rest read =>
    exact C.pure (alike_push similar (C.constant v) ((Number.literal_follows read).1.trans similar.within))
  · exact C.raise _
  · exact C.fail _

theorem holds_identifier (related : r.Related C text s) (similar : Similar C r text m ws)
    (starts : m.rest.head?.any isIdentifierPart = true) :
    C.holds (Alike C r text) (m.identifier r) (identifier s { m with values := ws }) := by
  have behind : Follows (m.rest.dropWhile isIdentifierPart) text := (dropWhile_follows starts).of_suffix similar.within
  unfold identifier
  dsimp only
  split
  · next rest opened =>
    have left : rest <:+ m.rest.dropWhile isIdentifierPart :=
      (List.suffix_cons '(' rest).trans (opened ▸ List.dropWhile_suffix _)
    have after : Follows rest text := .after left behind
    have moved : Similar C r text { m with rest } ws :=
      ⟨similar.expression, similar.values, similar.offered, after.1⟩
    exact holds_startCall related moved after _
  · obtain rfl := similar.expression
    exact map (related.parameter _) fun _ _ value => alike_push similar value behind.1

theorem holds_operand (related : r.Related C text s) (similar : Similar C r text m ws) :
    C.holds (Alike C r text) (m.operand r) (operand s { m with values := ws }) := by
  have within := similar.within
  have count := similar.values.length_eq
  unfold operand
  dsimp only
  split
  · exact C.raise _
  · next c rest eq =>
    have after : Follows rest text := (follows_cons List.suffix_rfl).of_suffix (eq ▸ within)
    have awaiting (op : Operation) (offered : op.OfferedBy r) := C.pure (alike_await similar offered after.1)
    have moved : Similar C r text { m with rest } ws :=
      ⟨similar.expression, similar.values, similar.offered, after.1⟩
    split_ifs
    · exact awaiting .parenthesis trivial
    · exact awaiting (.unary .plus) trivial
    · exact awaiting (.unary .negate) trivial
    · exact awaiting (.unary .not) trivial
    · rw [← count]
      split
      · next callee base stack top =>
        split
        · exact holds_finishCall related (moved.pop top) (similar.offered _ (top ▸ List.mem_cons_self))
        · exact C.raise _
      · exact C.raise _
    · exact holds_reference related moved after
    · exact holds_numeral similar
    · next start => exact holds_identifier related similar (by simp [eq, isIdentifierPart_of_isIdentifierStart start])
    · exact C.raise _

theorem holds_operator (related : r.Related C text s) (similar : Similar C r text m ws) :
    C.holds (Alike C r text) (m.operator r) (operator s { m with values := ws }) := by
  have within := similar.within
  have moved (rest : Text) (suffix : rest <:+ m.rest) : Similar C r text { m with rest } ws :=
    ⟨similar.expression, similar.values, similar.offered, suffix.trans within⟩
  have reduced (rest : Text) (suffix : rest <:+ m.rest) (p : Nat) (op : Operation) (offered : op.OfferedBy r) :
      C.holds (Alike C r text) (do return (← reduce r { m with rest } p).await op)
        (do return (← reduce s { m with rest, values := ws } p).await op) := by
    refine C.bind (holds_reduceWhile related (moved rest suffix) _) fun m _ ⟨ws, same, similar⟩ => ?_
    subst same
    exact C.pure (alike_await similar offered similar.within)
  unfold operator
  dsimp only
  rw [related.operators]
  split
  · next f rest longest =>
    exact reduced rest (longestOperator?_suffix longest) _ _ (.inr (isLongest_of_longestOperator? longest).1)
  · split
    · exact C.raise _
    · next c rest eq =>
      have suffix : rest <:+ m.rest := eq ▸ List.suffix_cons c rest
      split_ifs
      · exact holds_close related (moved rest suffix)
      · exact holds_comma related (moved rest suffix) _
      · exact reduced rest suffix _ .question trivial
      · exact holds_colon related (moved rest suffix)
      · split
        · next op rest read => exact reduced rest (BinaryOperator.read?_follows read).1 _ (.binary op) trivial
        · exact C.raise _

theorem holds_finish (related : r.Related C text s) (similar : Similar C r text m ws) :
    C.holds C.value (m.finish r) (finish s { m with values := ws }) := by
  unfold finish reduceGroup
  dsimp only
  split
  · exact C.raise _
  · refine C.bind (holds_reduceWhile related similar _) fun m _ ⟨ws, same, similar⟩ => ?_
    subst same
    dsimp only
    -- Only the shape of the values is looked at, and it is the same for both.
    have shape := similar.values
    generalize m.values = vs at shape ⊢
    rcases m.stack with _ | ⟨op, stack⟩
    · rcases shape with _ | ⟨value, _ | _⟩
      · exact C.raise _
      · exact C.pure value
      · exact C.raise _
    · rcases shape with _ | ⟨value, _ | _⟩
      · cases op <;> exact C.raise _
      · cases op <;> first | exact C.raise _ | exact C.pure value
      · cases op <;> exact C.raise _

theorem holds_scan (related : r.Related C text s) (fuel : Nat) (similar : Similar C r text m ws) :
    C.holds C.value (scan r fuel m) (scan s fuel { m with values := ws }) := by
  induction fuel generalizing m ws with
  | zero => exact C.fail _
  | succ fuel ih =>
    have skipped : Similar C r text { m with rest := m.rest.dropWhile isAsciiSpace } ws :=
      ⟨similar.expression, similar.values, similar.offered, (List.dropWhile_suffix _).trans similar.within⟩
    have next (m n : Machine) (alike : Alike C r text m n) : C.holds C.value (scan r fuel m) (scan s fuel n) := by
      obtain ⟨ws, rfl, similar⟩ := alike
      exact ih similar
    unfold scan
    dsimp only
    split
    · exact holds_finish related skipped
    · split
      · exact C.bind (holds_operator related skipped) next
      · exact C.bind (holds_operand related skipped) next

/-- The runs of related resolvers are related. -/
theorem holds_run (related : r.Related C text s) : C.holds C.value (run r text) (run s text) := by
  unfold run
  dsimp only
  split_ifs
  · exact C.raise _
  · exact C.raise _
  · exact holds_scan related _ ⟨rfl, .nil, (fun _ member => nomatch member), List.suffix_rfl⟩

end Correspondence

end Netlist
