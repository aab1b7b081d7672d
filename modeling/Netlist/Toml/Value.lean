import Netlist.Text.Basic

/-!
Values of a TOML document. Tables keep their keys in the order of their definition. How a table
came to be decides what may still be added to it, so every table remembers its origin.
-/
namespace Netlist.Toml

/-- How a table was defined: by its own header, as part of the path of a longer header, by a dotted
key, or in braces. -/
inductive Origin where
  | header
  | implied
  | dotted
  | inline
  deriving DecidableEq, Repr

inductive Value where
  | boolean (b : Bool)
  | integer (n : Int)
  | float (x : Float)
  | text (t : Text)
  /-- A date, a time or both, as it is written. -/
  | moment (t : Text)
  /-- An array; an open one was started by a header in double brackets, and further such headers
  add tables to it. -/
  | array (isOpen : Bool) (items : List Value)
  | table (origin : Origin) (entries : List (Text × Value))

abbrev Entries := List (Text × Value)

namespace Entries

def get? (entries : Entries) (key : Text) : Option Value := (entries.find? (·.1 == key)).map (·.2)

/-- The entries with the value of a key changed in its place, or added at the end. The change may
be refused. -/
def change? (key : Text) (f : Option Value → Option Value) : Entries → Option Entries
  | [] => (f none).map fun v => [(key, v)]
  | (k, v) :: rest =>
    if k == key then (f (some v)).map fun v => (k, v) :: rest
    else (change? key f rest).map ((k, v) :: ·)

def add? (key : Text) (v : Value) (entries : Entries) : Option Entries :=
  entries.change? key fun
    | none => some v
    | some _ => none

/-- The entries of a table with the table at the end of a path changed. Tables on the way are made
where there are none, and a header that leads through an open array continues in its last table. A
dotted key does not lead into tables that have a header, and nothing leads into a table in braces. -/
def changeAt? (byHeader : Bool) (f : Origin → Entries → Option Entries) :
    List Text → Origin → Entries → Option Entries
  | [], origin, entries => f origin entries
  | key :: path, _, entries =>
    entries.change? key fun
      | none =>
        let origin := if byHeader then Origin.implied else .dotted
        (changeAt? byHeader f path origin []).map (.table origin)
      | some (.table origin inner) =>
        if origin = .inline || (!byHeader && origin = .header) then none
        else (changeAt? byHeader f path origin inner).map (.table origin)
      | some (.array true items) =>
        match byHeader, items.getLast? with
        | true, some (.table origin inner) =>
          (changeAt? byHeader f path origin inner).map fun inner =>
            .array true (items.dropLast ++ [.table origin inner])
        | _, _ => none
      | some _ => none

/-- The entries with the value of a dotted key added. The last part of the key goes to a table that
dotted keys have made. -/
def assign? (path : List Text) (key : Text) (v : Value) (entries : Entries) : Option Entries :=
  changeAt? false
    (fun origin inner => if path.isEmpty || origin = .dotted then inner.add? key v else none)
    path .header entries

/-- The entries with a table defined by a header, which may complete an implied table. -/
def openTable? (path : List Text) (key : Text) (entries : Entries) : Option Entries :=
  changeAt? true
    (fun _ inner => inner.change? key fun
      | none => some (.table .header [])
      | some (.table .implied entries) => some (.table .header entries)
      | some _ => none)
    path .header entries

/-- The entries with a table added to an open array, which is started if there is none. -/
def openItem? (path : List Text) (key : Text) (entries : Entries) : Option Entries :=
  changeAt? true
    (fun _ inner => inner.change? key fun
      | none => some (.array true [.table .header []])
      | some (.array true items) => some (.array true (items ++ [.table .header []]))
      | some _ => none)
    path .header entries

end Entries

end Netlist.Toml
