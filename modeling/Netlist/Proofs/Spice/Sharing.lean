import Mathlib.Data.Finset.Card
import Netlist.Proofs.Lexer.Caching
import Netlist.Spice.Shared

/-!
Lexers that share their grammars are the ones that have grammars of their own. A cache holds one grammar
for each of the options it was asked for, and options determine the grammar that is made for them.
-/
namespace Netlist.Spice

open Lexer

theorem lexerWith_grammar (o : Options) (file : Option Text) (keepSuppressed : Bool) :
    lexerWith (grammar o) o file keepSuppressed = lexer o file keepSuppressed := rfl

/-- A cache of one grammar for each of some options, in the order in which they were first asked for. -/
structure Compiled (cache : GrammarCache) (known : List Options) : Prop where
  entries : cache.entries = known.map fun o => (o, grammar o)
  distinct : known.Nodup

namespace Compiled
variable {cache : GrammarCache} {known : List Options}

theorem keys (compiled : Compiled cache known) : cache.entries.map Prod.fst = known := by
  rw [compiled.entries, List.map_map]
  exact List.map_id known

theorem size (compiled : Compiled cache known) : cache.size = known.length := by
  rw [Cache.size, compiled.entries, List.length_map]

theorem find?_known (compiled : Compiled cache known) {o : Options} (member : o ∈ known) :
    cache.find? o = some (known.idxOf o, grammar o) := by
  have hit : (cache.find? o).isSome = true := by
    rw [Cache.find?_isSome, compiled.keys]
    exact member
  obtain ⟨⟨place, made⟩, found⟩ := Option.isSome_iff_exists.mp hit
  have entry := Cache.entry_of_find? found
  rw [compiled.entries, List.getElem?_map] at entry
  obtain ⟨o', at_place, same⟩ := Option.map_eq_some_iff.mp entry
  obtain ⟨rfl, rfl⟩ := Prod.mk.inj same
  obtain ⟨bound, rfl⟩ := List.getElem?_eq_some_iff.mp at_place
  rw [found, compiled.distinct.idxOf_getElem place bound]

theorem find?_unknown (compiled : Compiled cache known) {o : Options} (absent : o ∉ known) : cache.find? o = none := by
  rw [← Option.not_isSome_iff_eq_none, Cache.find?_isSome, compiled.keys]
  exact absent

/-- A request gets its lexer, and puts new options behind the known ones. -/
theorem cached (compiled : Compiled cache known) (r : Request) :
    ∃ known', known <+: known' ∧ (∀ o, o ∈ known' ↔ o ∈ known ∨ o = r.options) ∧
      (r.cached cache).1 = .ok (known'.idxOf r.options, r.fresh) ∧ Compiled (r.cached cache).2 known' := by
  by_cases member : r.options ∈ known
  · have found := compiled.find?_known member
    have answer : r.cached cache = (.ok (known.idxOf r.options, r.fresh), cache) := by
      rw [Request.cached, Cache.getOrBuild_hit found, Request.fresh, ← lexerWith_grammar]
      rfl
    rw [answer]
    refine ⟨known, List.prefix_rfl, fun o => ⟨.inl, ?_⟩, rfl, compiled⟩
    rintro (old | rfl)
    · exact old
    · exact member
  · have missing := compiled.find?_unknown member
    have place : (known ++ [r.options]).idxOf r.options = known.length := by
      rw [List.idxOf_append_of_notMem member, List.idxOf_cons_self, Nat.add_zero]
    have answer : r.cached cache = (.ok ((known ++ [r.options]).idxOf r.options, r.fresh),
        ⟨cache.entries ++ [(r.options, grammar r.options)]⟩) := by
      rw [Request.cached, Cache.getOrBuild_miss missing, place, ← compiled.size, Request.fresh, ← lexerWith_grammar]
      rfl
    rw [answer]
    refine ⟨known ++ [r.options], List.prefix_append _ _, by simp, rfl, ?_, ?_⟩
    · rw [compiled.entries, List.map_append]
      rfl
    · rw [← List.concat_eq_append]
      exact compiled.distinct.concat member

theorem cachedLexers (compiled : Compiled cache known) (requests : List Request) :
    ∃ known', known <+: known' ∧ (∀ o, o ∈ known' ↔ o ∈ known ∨ o ∈ requests.map (·.options)) ∧
      (cachedLexers requests cache).1 = requests.map (fun r => .ok (known'.idxOf r.options, r.fresh)) ∧
      Compiled (Spice.cachedLexers requests cache).2 known' := by
  induction requests generalizing cache known with
  | nil => exact ⟨known, List.prefix_rfl, by simp, rfl, compiled⟩
  | cons r requests ih =>
    obtain ⟨known₁, extends₁, members₁, answer, compiled₁⟩ := compiled.cached r
    obtain ⟨known₂, extends₂, members₂, answers, compiled₂⟩ := ih compiled₁
    have kept : known₂.idxOf r.options = known₁.idxOf r.options := by
      obtain ⟨more, rfl⟩ := extends₂
      exact List.idxOf_append_of_mem ((members₁ r.options).mpr (.inr rfl))
    refine ⟨known₂, extends₁.trans extends₂, fun o => ?_, ?_, compiled₂⟩
    · rw [members₂, members₁, List.map_cons, List.mem_cons, or_assoc]
    · rw [List.map_cons, kept, ← answer, ← answers]
      rfl

end Compiled

/-- Lexers made on one cache are the fresh ones. Two of them share a grammar exactly if their options
are equal, and the cache holds as many grammars as there are different options. -/
theorem cachedLexers_eq_fresh (requests : List Request) :
    (∃ place : Options → Nat, (∀ r ∈ requests, ∀ s ∈ requests, place r.options = place s.options ↔ r.options = s.options) ∧
      (cachedLexers requests {}).1 = requests.map fun r => .ok (place r.options, r.fresh)) ∧
    (cachedLexers requests {}).2.size = (requests.map (·.options)).toFinset.card := by
  have empty : Compiled {} [] := ⟨rfl, List.nodup_nil⟩
  obtain ⟨known, _, members, answers, compiled⟩ := empty.cachedLexers requests
  have asked {r : Request} (member : r ∈ requests) : r.options ∈ known :=
    (members r.options).mpr (.inr (List.mem_map_of_mem member))
  refine ⟨⟨known.idxOf, fun r first s second => ?_, answers⟩, ?_⟩
  · exact List.idxOf_inj (asked first)
  · have same : known.toFinset = (requests.map (·.options)).toFinset := by
      ext o
      simpa using members o
    rw [compiled.size, ← same, List.toFinset_card_of_nodup compiled.distinct]

/-- Cached grammars are interchangeable with fresh ones, because a cache keeps the first thing that was
built for a key: a call for a key that something was built for returns it, builds nothing and changes
nothing, and a call for any other key returns what its builder makes, where a failure changes nothing. -/
theorem cache_interchangeable :
    (∀ requests : List Request,
      (∃ place : Options → Nat,
        (∀ r ∈ requests, ∀ s ∈ requests, place r.options = place s.options ↔ r.options = s.options) ∧
        (cachedLexers requests {}).1 = requests.map fun r => .ok (place r.options, lexer r.options r.file r.keepSuppressed)) ∧
      (cachedLexers requests {}).2.size = (requests.map (·.options)).toFinset.card) ∧
    ∀ {κ γ ε σ : Type} [DecidableEq κ] (calls : List (Cache.Call κ γ ε σ)) (call : Cache.Call κ γ ε σ) (world : σ),
      let ((answers, cache), world') := (Cache.serve calls {}).run world
      (cache.getOrBuildM call.key call.build).run world' = match Cache.firstBuilt? call.key calls answers with
        | some found => ((.ok found, cache), world')
        | none => match (call.build call.key).run world' with
          | (.error e, world'') => ((.error e, cache), world'')
          | (.ok made, world'') => ((.ok (cache.size, made), ⟨cache.entries ++ [(call.key, made)]⟩), world'') :=
  ⟨cachedLexers_eq_fresh, fun calls call world => Cache.getOrBuildM_behind calls call world⟩

end Netlist.Spice
