import Netlist.CommandLine.Outcome
import Netlist.CommandLine.Usage

/-!
The program: it reads the files that a request needs, carries the request out, and prints what
comes of it.
-/
namespace Netlist

def readFile? (path : Text) : IO (Option Text) := do
  try return some (← IO.FS.readFile (String.ofList path)).toList
  catch _ => return none

def readFiles : List Text → IO (List (Text × Text))
  | [] => return []
  | path :: rest => do
    let others ← readFiles rest
    match ← readFile? path with
    | some t => return (path, t) :: others
    | none => return others

end Netlist

open Netlist CommandLine in
def main (arguments : List String) : IO UInt32 := do
  match Request.parse (arguments.map String.toList) with
  | .error .help => IO.println usage; return 0
  | .error .version => IO.println version; return 0
  | .error e => IO.eprintln s!"error: {e.message}"; return 2
  | .ok request =>
    let contents ← readFiles request.files
    let outcome := request.run fun path => (contents.find? (·.1 == path)).map (·.2)
    IO.print (String.ofList outcome.output)
    match outcome.failure? with
    | none => return 0
    | some f =>
      f.report.forM fun line => IO.eprintln (String.ofList line)
      return 1
