import Netlist.Toml.Reader

/-!
Documents. Assignments go to the table of the header above them, those above all headers to the
document itself.
-/
namespace Netlist.Toml

structure Draft where
  header? : Option Key := none
  entries : Entries := []

namespace Draft

def add? (draft : Draft) : Statement → Option Draft
  | .header key => do
    some { header? := some key, entries := ← draft.entries.openTable? key.path key.last }
  | .item key => do
    some { header? := some key, entries := ← draft.entries.openItem? key.path key.last }
  | .assignment key v => do
    let section? : Option (List Text) := draft.header?.map fun header => header.path ++ [header.last]
    let entries ← Entries.changeAt? true (fun _ inner => inner.assign? key.path key.last v) (section?.getD [])
      .header draft.entries
    some { draft with entries }

end Draft

/-- The entries of a document. A byte order mark may stand in front. -/
def parse? (t : Text) : Option Entries := do
  let t := (afterOpening? ['\ufeff'] t).getD t
  let statements ← statements? (t.length + 1) t
  let draft ← statements.foldlM Draft.add? {}
  some draft.entries

end Netlist.Toml
