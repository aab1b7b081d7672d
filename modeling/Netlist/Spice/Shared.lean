import Netlist.Lexer.Cache
import Netlist.Spice.Grammar

/-!
Lexers that share grammars. Only what a lexer's grammar is made of is shared; the window takes effect
outside the grammar and comes from the options themselves. All handles of a cache stand for the same
entries, so lexers that are made one after another on any of them are made on one cache.
-/
namespace Netlist.Spice

open Lexer

abbrev GrammarCache := Cache Options (Grammar Kind)

/-- The lexer that options select, with a grammar that was made for them. -/
def lexerWith (grammar : Grammar Kind) (o : Options) (file : Option Text) (keepSuppressed : Bool) : Lexer Kind where
  grammar
  options := { window := o.window, continuation := .netlist, keepSuppressed }
  file

/-- What selects a lexer: its options, and the settings that no grammar depends on. -/
structure Request where
  options : Options := {}
  file : Option Text := none
  keepSuppressed : Bool := false
  deriving DecidableEq, Repr

def Request.fresh (r : Request) : Lexer Kind := lexer r.options r.file r.keepSuppressed

/-- A lexer with the grammar of a cache, and the place that identifies this grammar. -/
def Request.cached (r : Request) (cache : GrammarCache) : Except Text (Nat × Lexer Kind) × GrammarCache :=
  let (found, cache) := cache.getOrBuild r.options fun o => .ok (grammar o)
  (found.map fun (place, shared) => (place, lexerWith shared r.options r.file r.keepSuppressed), cache)

/-- Lexers made one after another on one cache. -/
def cachedLexers : List Request → GrammarCache → List (Except Text (Nat × Lexer Kind)) × GrammarCache
  | [], cache => ([], cache)
  | r :: requests, cache =>
    let (made, cache) := r.cached cache
    let (others, cache) := cachedLexers requests cache
    (made :: others, cache)

end Netlist.Spice
