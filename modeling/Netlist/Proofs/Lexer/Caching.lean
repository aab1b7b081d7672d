import Netlist.Lexer.Cache

/-!
What a cache returns after any history of calls. A key has the first thing that was built for it, at the
place where it was put then, and nothing is built for this key again.
-/
namespace Netlist.Cache
variable {κ γ ε σ : Type} [DecidableEq κ]

/-- A call of a cache: a key, and a builder that may fail and that works in a world of its own. -/
structure Call (κ γ ε σ : Type) where
  key : κ
  build : κ → StateM σ (Except ε γ)

def serve : List (Call κ γ ε σ) → Cache κ γ → StateM σ (List (Except ε (Nat × γ)) × Cache κ γ)
  | [], cache => pure ([], cache)
  | call :: calls, cache => do
    let (answer, cache) ← cache.getOrBuildM call.key call.build
    let (answers, cache) ← serve calls cache
    pure (answer :: answers, cache)

def firstBuilt? (key : κ) : List (Call κ γ ε σ) → List (Except ε (Nat × γ)) → Option (Nat × γ)
  | call :: calls, .ok found :: answers => if call.key = key then some found else firstBuilt? key calls answers
  | _ :: calls, .error _ :: answers => firstBuilt? key calls answers
  | _, _ => none

/-! ### Entries -/

theorem find?_nil (key : κ) : ({} : Cache κ γ).find? key = none := rfl

theorem find?_concat (cache : Cache κ γ) (key other : κ) (made : γ) :
    find? ⟨cache.entries ++ [(key, made)]⟩ other =
      (cache.find? other).or (if key = other then some (cache.size, made) else none) := by
  unfold find? size
  rw [List.zipIdx_append, List.find?_append]
  cases earlier : cache.entries.zipIdx.find? fun entry => entry.1.1 == other with
  | some found => rfl
  | none =>
    by_cases same : key = other <;> simp [same, List.find?]

theorem entry_of_find? {cache : Cache κ γ} {key : κ} {place : Nat} {made : γ} (found : cache.find? key = some (place, made)) :
    cache.entries[place]? = some (key, made) := by
  obtain ⟨⟨⟨own, thing⟩, index⟩, eq, same⟩ := Option.map_eq_some_iff.mp found
  obtain ⟨rfl, rfl⟩ := Prod.mk.inj same
  have matched := List.find?_some eq
  obtain rfl : own = key := eq_of_beq matched
  exact List.mem_zipIdx_iff_getElem?.mp (List.mem_of_find?_eq_some eq)

theorem find?_isSome {cache : Cache κ γ} {key : κ} :
    (cache.find? key).isSome = true ↔ key ∈ cache.entries.map Prod.fst := by
  rw [find?, Option.isSome_map, List.find?_isSome]
  constructor
  · rintro ⟨⟨entry, index⟩, member, same⟩
    rw [← eq_of_beq same]
    exact List.mem_map_of_mem (List.fst_mem_of_mem_zipIdx member)
  · intro member
    obtain ⟨entry, among, rfl⟩ := List.mem_map.mp member
    obtain ⟨index, bound, rfl⟩ := List.getElem_of_mem among
    refine ⟨(cache.entries[index], index), List.mem_zipIdx_iff_getElem?.mpr ?_, beq_self_eq_true _⟩
    exact List.getElem?_eq_getElem bound

/-! ### Calls -/

theorem getOrBuildM_hit {cache : Cache κ γ} {key : κ} {found : Nat × γ} (hit : cache.find? key = some found)
    (build : κ → StateM σ (Except ε γ)) (world : σ) :
    (cache.getOrBuildM key build).run world = ((.ok found, cache), world) := by
  unfold getOrBuildM
  rw [hit]
  rfl

theorem getOrBuildM_miss {cache : Cache κ γ} {key : κ} (miss : cache.find? key = none)
    (build : κ → StateM σ (Except ε γ)) (world : σ) :
    (cache.getOrBuildM key build).run world = match (build key).run world with
      | (.error e, world) => ((.error e, cache), world)
      | (.ok made, world) => ((.ok (cache.size, made), ⟨cache.entries ++ [(key, made)]⟩), world) := by
  unfold getOrBuildM
  rw [miss]
  simp only [StateT.run_bind]
  rcases (build key).run world with ⟨_ | _, _⟩ <;> rfl

theorem getOrBuild_hit {cache : Cache κ γ} {key : κ} {found : Nat × γ} (hit : cache.find? key = some found)
    (build : κ → Except ε γ) : cache.getOrBuild key build = (.ok found, cache) := by
  unfold getOrBuild getOrBuildM
  rw [hit]
  rfl

theorem getOrBuild_miss {cache : Cache κ γ} {key : κ} (miss : cache.find? key = none) (build : κ → Except ε γ) :
    cache.getOrBuild key build = match build key with
      | .error e => (.error e, cache)
      | .ok made => (.ok (cache.size, made), ⟨cache.entries ++ [(key, made)]⟩) := by
  unfold getOrBuild getOrBuildM
  rw [miss]
  rcases eq : build key with _ | _ <;> simp [eq]

theorem find?_getOrBuildM (cache : Cache κ γ) (key other : κ) (build : κ → StateM σ (Except ε γ)) (world : σ) :
    ((cache.getOrBuildM key build).run world).1.2.find? other = (cache.find? other).or
      (if key = other then ((cache.getOrBuildM key build).run world).1.1.toOption else none) := by
  cases eq : cache.find? key with
  | some found =>
    rw [getOrBuildM_hit eq]
    by_cases same : key = other
    · subst same
      rw [eq]
      rfl
    · rw [if_neg same, Option.or_none]
  | none =>
    rw [getOrBuildM_miss eq]
    rcases (build key).run world with ⟨_ | made, _⟩
    · simp [Except.toOption]
    · exact find?_concat cache key other made

theorem firstBuilt?_cons (key : κ) (call : Call κ γ ε σ) (calls : List (Call κ γ ε σ)) (answer : Except ε (Nat × γ))
    (answers : List (Except ε (Nat × γ))) :
    firstBuilt? key (call :: calls) (answer :: answers) =
      (if call.key = key then answer.toOption else none).or (firstBuilt? key calls answers) := by
  cases answer with
  | error e => simp [firstBuilt?, Except.toOption]
  | ok found => by_cases same : call.key = key <;> simp [firstBuilt?, same, Except.toOption]

/-- What a cache finds behind a history of calls. -/
theorem find?_serve (calls : List (Call κ γ ε σ)) (cache : Cache κ γ) (world : σ) (key : κ) :
    ((serve calls cache).run world).1.2.find? key =
      (cache.find? key).or (firstBuilt? key calls ((serve calls cache).run world).1.1) := by
  induction calls generalizing cache world with
  | nil => exact (Option.or_none).symm
  | cons call calls ih =>
    have behind := ih ((cache.getOrBuildM call.key call.build).run world).1.2 ((cache.getOrBuildM call.key call.build).run world).2
    rw [find?_getOrBuildM, Option.or_assoc, ← firstBuilt?_cons] at behind
    exact behind

/-- A call behind any history of calls on an empty cache. If a call for the same key has succeeded, it
returns what the first of them returned, builds nothing and changes nothing. Otherwise it returns what
its builder makes: a failure leaves the cache as it is, and what is made is put behind the other entries. -/
theorem getOrBuildM_behind (calls : List (Call κ γ ε σ)) (call : Call κ γ ε σ) (world : σ) :
    let ((answers, cache), world') := (serve calls {}).run world
    (cache.getOrBuildM call.key call.build).run world' = match firstBuilt? call.key calls answers with
      | some found => ((.ok found, cache), world')
      | none => match (call.build call.key).run world' with
        | (.error e, world'') => ((.error e, cache), world'')
        | (.ok made, world'') => ((.ok (cache.size, made), ⟨cache.entries ++ [(call.key, made)]⟩), world'') := by
  have known := find?_serve calls {} world call.key
  rw [find?_nil, Option.none_or] at known
  generalize (serve calls {}).run world = state at known ⊢
  obtain ⟨⟨answers, cache⟩, world'⟩ := state
  dsimp only at known ⊢
  cases eq : firstBuilt? call.key calls answers with
  | some found => exact getOrBuildM_hit (known.trans eq) call.build world'
  | none => exact getOrBuildM_miss (known.trans eq) call.build world'

end Netlist.Cache
