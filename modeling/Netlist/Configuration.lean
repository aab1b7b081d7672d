import Netlist.Expression.Refresh
import Netlist.Failure
import Netlist.Library.Standard
import Netlist.Spice.Grammar
import Netlist.Toml.Document

/-!
Configurations: the options of the lexer, the dialect, a seed for the random functions, and
parameters. Parameters are defined in the order in which they appear, so an expression may refer
to any parameter above it.
-/
namespace Netlist

inductive Definition where
  | number (v : Float)
  | expression (t : Text)

structure Configuration where
  options : Spice.Options := {}
  dialect : Dialect := .spice3f5
  seed : Option UInt64 := none
  parameters : List (Text × Definition) := []

namespace Configuration

open Toml

/-- A choice by name: the name in quotes, or a table that has the name as its only key, with nothing
in it. -/
def choice? {α : Type} (ofName? : Text → Option α) : Value → Option α
  | .text name => ofName? name
  | .table _ [(name, .array _ [])] | .table _ [(name, .table _ [])] => ofName? name
  | _ => none

/-- The value that a reader finds in a field, or the default if the field is missing. -/
def field? {α : Type} (read? : Value → Option α) (default : α) : Option Value → Option α
  | none => some default
  | some v => read? v

def flag? : Value → Option Bool
  | .boolean b => some b
  | _ => none

/-- Options of the lexer: a table, in which other keys are disregarded, or an array that lists the
options from the first one on. -/
def options? (v : Value) : Option Spice.Options := do
  let lookup : Nat → String → Option Value ← match v with
    | .table _ entries => some fun _ name => Entries.get? entries (chars name)
    | .array _ items => some fun place _ => items[place]?
    | _ => none
  let preset : Spice.Options := {}
  some {
    hasTitle := ← field? flag? preset.hasTitle (lookup 0 "has_title")
    keepComments := ← field? flag? preset.keepComments (lookup 1 "keep_comments")
    hspiceComments := ← field? flag? preset.hspiceComments (lookup 2 "hspice_comments")
    pspiceComments := ← field? flag? preset.pspiceComments (lookup 3 "pspice_comments")
    blockComments := ← field? flag? preset.blockComments (lookup 4 "block_comments")
    busSyntax := ← field? flag? preset.busSyntax (lookup 5 "enable_bus_syntax")
    window := ← field? (choice? Window.ofName?) preset.window (lookup 6 "window") }

/-- A seed: an integer of 64 bits without a sign. -/
def seed? : Value → Option UInt64
  | .integer n => if 0 ≤ n ∧ n < UInt64.size then some n.toNat.toUInt64 else none
  | _ => none

/-- What is said about a parameter: a number, or an expression in quotes. Integers have 64 bits. -/
def definition? : Value → Option Definition
  | .float v => some (.number v)
  | .integer n =>
    if Int64.minValue.toInt ≤ n ∧ n < UInt64.size then
      let magnitude := Decimal.nearestDouble n.natAbs 0
      some (.number (if n < 0 then -magnitude else magnitude))
    else none
  | .text t => some (.expression t)
  | _ => none

def parameters? : Value → Option (List (Text × Definition))
  | .table _ entries => entries.mapM fun (name, v) => (definition? v).map (name, ·)
  | _ => none

/-- The configuration that a document describes. Unknown keys are not accepted. -/
def ofEntries? (entries : Entries) : Option Configuration :=
  let known : List Text := [chars "lexer", chars "dialect", chars "seed", chars "parameters"]
  if entries.all fun (key, _) => known.contains key then do
    some {
      options := ← field? options? {} (entries.get? (chars "lexer"))
      dialect := ← field? (choice? Dialect.ofName?) .spice3f5 (entries.get? (chars "dialect"))
      seed := ← field? (fun v => (seed? v).map some) none (entries.get? (chars "seed"))
      parameters := ← field? parameters? [] (entries.get? (chars "parameters")) }
  else none

def parse? (t : Text) : Option Configuration := (Toml.parse? t).bind ofEntries?

/-- With a parameter defined by an expression. A parameter of exactly this name keeps its place. -/
def override (c : Configuration) (name t : Text) : Configuration :=
  let rec replace : List (Text × Definition) → List (Text × Definition)
    | [] => [(name, .expression t)]
    | (n, d) :: rest => if n == name then (n, .expression t) :: rest else (n, d) :: replace rest
  { c with parameters := replace c.parameters }

def defineAll (s : Session) : List (Text × Definition) → Except Failure Session
  | [] => .ok s
  | (name, .number v) :: rest =>
    match Session.set name v s with
    | (.ok _, s) => defineAll s rest
    | (.error fault, _) => .error (.ofFault none fault)
  | (name, .expression t) :: rest =>
    match Session.derive name t s with
    | (.ok _, s) => defineAll s rest
    | (.error fault, _) => .error (.ofFault (some (.defineParameter name)) fault)

def session (c : Configuration) : Except Failure Session :=
  let generator : Generator := match c.seed with
    | some seed => { seed }
    | none => {}
  defineAll { scope := .standard c.dialect, world := { generator } } c.parameters

end Configuration

end Netlist
