import Netlist.Expression.Dialect
import Netlist.Line.Window
import Netlist.Text.Blank

/-!
What a user asks for on the command line: one of three commands with its options and operands.
`Request.parse` reads the arguments. Options may stand before and behind operands, a long option
takes its value from the same argument or from the next one, and behind `--` all arguments are
operands.

The value of an option is checked when the next option or operand comes, or at the end. An argument
that is no option of its command is therefore reported in preference to a bad value before it.
-/
namespace Netlist.CommandLine

inductive UsageError where
  | help
  | version
  | noArguments
  | missingCommand
  | unknownCommand
  | unknownArgument
  /-- A required operand is missing. -/
  | missingOperand
  | missingValue
  /-- An option without a value was given one. -/
  | unexpectedValue
  | invalidValue
  /-- An option that may stand once was repeated. -/
  | repeatedOption
  deriving DecidableEq, Repr

inductive Command where
  | tokens
  | lines
  | evaluate
  deriving DecidableEq, Repr

def Command.ofName? (t : Text) : Option Command :=
  if t == chars "tokens" then some .tokens
  else if t == chars "lines" then some .lines
  else if t == chars "eval" then some .evaluate
  else none

def helpWord : Text := chars "help"

def isCommandName (t : Text) : Bool := t == helpWord || (Command.ofName? t).isSome

inductive Switch where
  | help
  | version
  | configuration
  | title
  | keepComments
  | bus
  | suppressed
  | window
  | dialect
  | seed
  | parameter
  deriving DecidableEq, Repr

namespace Switch

def long : Switch → Text
  | help => chars "help"
  | version => chars "version"
  | configuration => chars "config"
  | title => chars "title"
  | keepComments => chars "keep-comments"
  | bus => chars "bus"
  | suppressed => chars "suppressed"
  | window => chars "window"
  | dialect => chars "dialect"
  | seed => chars "seed"
  | parameter => chars "param"

def letter? : Switch → Option Char
  | help => some 'h'
  | version => some 'V'
  | configuration => some 'c'
  | dialect => some 'd'
  | parameter => some 'p'
  | _ => none

def takesValue : Switch → Bool
  | configuration | window | dialect | seed | parameter => true
  | _ => false

def general : List Switch := [configuration, help, version]

def ofCommand : Command → List Switch
  | .tokens => [title, keepComments, bus, suppressed, window, configuration, help]
  | .lines => [configuration, help]
  | .evaluate => [dialect, seed, parameter, configuration, help]

end Switch

structure Settings where
  configuration : Option Text := none
  title : Bool := false
  keepComments : Bool := false
  bus : Bool := false
  suppressed : Bool := false
  window : Option Window := none
  dialect : Option Dialect := none
  seed : Option UInt64 := none
  parameters : List (Text × Text) := []
  operands : List Text := []

/-- A whole number of 64 bits, which may have a plus sign. -/
def seed? (t : Text) : Option UInt64 :=
  let digits := (afterOpening? ['+'] t).getD t
  let n := digits.foldl (fun n c => 10 * n + (c.toNat - '0'.toNat)) 0
  if !digits.isEmpty && digits.all Char.isDigit && decide (n < UInt64.size) then some n.toUInt64 else none

def assignment? (t : Text) : Option (Text × Text) :=
  match t.dropWhile (· != '=') with
  | _ :: expression =>
    let name := trim (t.takeWhile (· != '='))
    if name.isEmpty then none else some (name, trim expression)
  | [] => none

namespace Settings

def assign (s : Settings) (switch : Switch) (v : Text) : Except UsageError Settings :=
  let checked {α : Type} (read : Option α) (f : α → Settings) : Except UsageError Settings :=
    match read with
    | some a => .ok (f a)
    | none => .error .invalidValue
  match switch with
  | .configuration => if v.isEmpty then .error .missingValue else .ok { s with configuration := some v }
  | .window => checked (Window.ofName? (asciiLower v)) fun w => { s with window := some w }
  | .dialect => checked (Dialect.parse? v) fun d => { s with dialect := some d }
  | .seed => checked (seed? v) fun n => { s with seed := some n }
  | .parameter => checked (assignment? v) fun a => { s with parameters := s.parameters ++ [a] }
  | _ => .error .unexpectedValue

def turnOn (s : Settings) (switch : Switch) : Except UsageError Settings :=
  match switch with
  | .help => .error .help
  | .version => .error .version
  | .title => .ok { s with title := true }
  | .keepComments => .ok { s with keepComments := true }
  | .bus => .ok { s with bus := true }
  | .suppressed => .ok { s with suppressed := true }
  | _ => .error .missingValue

end Settings

/-- What has been read and is still to be checked. -/
inductive Pending where
  | nothing
  | awaiting (switch : Switch)
  | value (switch : Switch) (v : Text)
  | operand (v : Text)

structure Reading where
  command? : Option Command := none
  settings : Settings := {}
  given : List Switch := []
  pending : Pending := .nothing
  operandsOnly : Bool := false

namespace Reading

def switches (r : Reading) : List Switch := (r.command?.map Switch.ofCommand).getD Switch.general

/-- Notes an option, which only parameters may repeat. -/
def note (r : Reading) (switch : Switch) : Except UsageError Reading :=
  if r.given.contains switch && switch != .parameter then .error .repeatedOption
  else .ok { r with given := switch :: r.given }

def assign (r : Reading) (switch : Switch) (v : Text) : Except UsageError Reading := do
  let r ← r.note switch
  return { r with settings := ← r.settings.assign switch v }

def operandsArePaths (r : Reading) : Bool := r.command? != some .evaluate

def settle (r : Reading) : Except UsageError Reading :=
  let settled := { r with pending := .nothing }
  match r.pending with
  | .nothing => .ok r
  | .awaiting _ => .error .missingValue
  | .value switch v => settled.assign switch v
  | .operand v =>
    if v.isEmpty && r.operandsArePaths then .error .missingValue
    else .ok { settled with settings := { r.settings with operands := r.settings.operands ++ [v] } }

def turnOn (r : Reading) (switch : Switch) : Except UsageError Reading := do
  let r ← (← r.settle).note switch
  return { r with settings := ← r.settings.turnOn switch }

def option (r : Reading) (switch : Switch) (attached? : Option Text) : Except UsageError Reading := do
  match attached? with
  | some v => (← r.settle).assign switch v
  | none => return { ← r.settle with pending := .awaiting switch }

/-- Reads a long option; the text starts behind its hyphens. -/
def longOption (r : Reading) (t : Text) : Except UsageError Reading :=
  let name := t.takeWhile (· != '=')
  let attached? := (t.dropWhile (· != '=')).tail?
  match r.switches.find? (·.long == name) with
  | none => .error .unknownArgument
  | some switch =>
    if switch.takesValue then r.option switch attached?
    else if attached?.isSome then .error .unexpectedValue
    else r.turnOn switch

/-- Reads short options in one argument. What follows the letter of an option that takes a value is
its value, up to an equals sign in front. -/
def shortOptions (r : Reading) : Text → Except UsageError Reading
  | [] => .ok r
  | c :: rest =>
    match r.switches.find? (·.letter? == some c) with
    | none => .error .unknownArgument
    | some switch =>
      if switch.takesValue then
        r.option switch (if rest.isEmpty then none else some ((afterOpening? ['='] rest).getD rest))
      else do shortOptions (← r.turnOn switch) rest

/-- Reads an operand. One input is all that a command on files takes. -/
def operand (r : Reading) (v : Text) : Except UsageError Reading := do
  let isFirst := r.settings.operands.isEmpty && !(r.pending matches .operand _)
  match r.command? with
  | none => .error (if r.operandsOnly && isCommandName v then .unknownArgument else .unknownCommand)
  | some command =>
    if command = .evaluate || isFirst then return { ← r.settle with pending := .operand v }
    else .error .unknownArgument

def argument (r : Reading) (t : Text) : Except UsageError Reading :=
  if r.operandsOnly then r.operand t
  else
    match t, r.pending with
    | ['-', '-'], _ => .ok { r with operandsOnly := true }
    | '-' :: '-' :: name, _ => r.longOption name
    | '-' :: c :: letters, _ => r.shortOptions (c :: letters)
    | _, .awaiting switch => .ok { r with pending := .value switch t }
    | _, _ => r.operand t

end Reading

inductive Action where
  | tokens (settings : Settings) (input : Text)
  | lines (input : Text)
  | evaluate (settings : Settings) (expressions : List Text)

structure Request where
  configuration : Option Text
  action : Action

namespace Request

/-- Reads the arguments of a command. An option of the same name in front of the command is
overridden. -/
def ofCommand (command : Command) (arguments : List Text) : Except UsageError Request := do
  let r ← arguments.foldlM Reading.argument { command? := some command }
  let settings := (← r.settle).settings
  match command, settings.operands with
  | _, [] => .error .missingOperand
  | .tokens, input :: _ => return ⟨settings.configuration, .tokens settings input⟩
  | .lines, input :: _ => return ⟨settings.configuration, .lines input⟩
  | .evaluate, expressions => return ⟨settings.configuration, .evaluate settings expressions⟩

def help : List Text → UsageError
  | [] => .help
  | [topic] => if isCommandName topic then .help else .unknownCommand
  | _ => .unknownCommand

def parseFrom (r : Reading) : List Text → Except UsageError Request
  | [] => do .error (if (← r.settle).given.isEmpty then .noArguments else .missingCommand)
  | t :: rest =>
    let mayBeCommand := !r.operandsOnly && !(r.pending matches .awaiting _)
    if mayBeCommand && t == helpWord then .error (help rest)
    else
      match if mayBeCommand then Command.ofName? t else none with
      | some command => do
        let request ← ofCommand command rest
        let settings := (← r.settle).settings
        return { request with configuration := request.configuration.or settings.configuration }
      | none => do parseFrom (← r.argument t) rest

def parse (arguments : List Text) : Except UsageError Request := parseFrom {} arguments

def files (r : Request) : List Text :=
  r.configuration.toList ++
    match r.action with
    | .tokens _ input | .lines input => [input]
    | .evaluate .. => []

end Request

end Netlist.CommandLine
