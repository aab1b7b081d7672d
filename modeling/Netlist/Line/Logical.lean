import Netlist.Line.Continuation

/-!
Logical lines: the runs of physical lines that continuation markers join, each spliced into one
line and placed in its source. The reader's `peek` never moves its cursor.
-/
namespace Netlist

/-- A logical line: its spliced text, the number of its first physical line, how many physical
lines it has, and its byte range, terminators included. -/
structure LogicalLine where
  text : Text
  line : Nat
  physicalLines : Nat
  start : Nat
  stop : Nat
  deriving DecidableEq, Repr

structure LogicalReader where
  continuation : Continuation
  runs : List (List PhysicalLine)
  position : Nat := 0
  line : Nat := 1
  deriving DecidableEq, Repr

namespace LogicalReader

def ofText (k : Continuation) (t : Text) : LogicalReader := { continuation := k, runs := k.group (physicalLines t) }

def describe (reader : LogicalReader) (run : List PhysicalLine) : LogicalLine where
  text := reader.continuation.splice run
  line := reader.line
  physicalLines := run.length
  start := reader.position
  stop := reader.position + byteSize (Continuation.source run)

def peek (reader : LogicalReader) : Option LogicalLine := reader.runs.head?.map reader.describe

def next (reader : LogicalReader) : Option LogicalLine × LogicalReader :=
  match reader.runs with
  | [] => (none, reader)
  | run :: runs =>
    let found := reader.describe run
    (some found, { reader with runs, position := found.stop, line := reader.line + run.length })

end LogicalReader

def describeRuns (reader : LogicalReader) : List (List PhysicalLine) → List LogicalLine
  | [] => []
  | run :: runs =>
    let found := reader.describe run
    found :: describeRuns { reader with position := found.stop, line := reader.line + run.length } runs

def logicalLines (k : Continuation) (t : Text) : List LogicalLine :=
  let reader := LogicalReader.ofText k t
  describeRuns reader reader.runs

end Netlist
