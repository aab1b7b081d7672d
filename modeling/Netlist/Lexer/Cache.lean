import Netlist.Text.Basic

/-!
A cache of things that are expensive to build, such as grammars, by the key they are built from.
Entries are kept in the order in which they were built, so that the place of an entry identifies
the thing it holds.
-/
namespace Netlist

structure Cache (κ γ : Type) where
  entries : List (κ × γ) := []

namespace Cache
variable {κ γ ε : Type} [BEq κ]

def size (cache : Cache κ γ) : Nat := cache.entries.length

def find? (cache : Cache κ γ) (key : κ) : Option (Nat × γ) :=
  (cache.entries.zipIdx.find? fun (entry, _) => entry.1 == key).map fun (entry, place) => (place, entry.2)

/-- What was built for a key, built now if need be; a builder that fails leaves the cache as it is. A
builder works in any monad. -/
def getOrBuildM {m : Type → Type} [Monad m] (cache : Cache κ γ) (key : κ) (build : κ → m (Except ε γ)) :
    m (Except ε (Nat × γ) × Cache κ γ) :=
  match cache.find? key with
  | some found => pure (.ok found, cache)
  | none => do
    match ← build key with
    | .error e => pure (.error e, cache)
    | .ok made => pure (.ok (cache.size, made), ⟨cache.entries ++ [(key, made)]⟩)

def getOrBuild (cache : Cache κ γ) (key : κ) (build : κ → Except ε γ) : Except ε (Nat × γ) × Cache κ γ :=
  Id.run (cache.getOrBuildM key fun key => pure (build key))

end Cache

end Netlist
