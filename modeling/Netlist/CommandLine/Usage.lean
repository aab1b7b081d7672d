import Netlist.CommandLine.Request

/-!
What the program says about itself and about arguments it does not understand.
-/
namespace Netlist.CommandLine

def usage : String :=
  "Tokenize SPICE netlists and evaluate SPICE expressions\n\n" ++
  "Usage: netlist [-c FILE] COMMAND\n\n" ++
  "Commands:\n" ++
  "  tokens [--title] [--keep-comments] [--bus] [--suppressed] [--window WINDOW] INPUT\n" ++
  "  lines INPUT\n" ++
  "  eval [-d DIALECT] [--seed SEED] [-p NAME=EXPRESSION]... EXPRESSION...\n" ++
  "  help [COMMAND]\n\n" ++
  "Options:\n" ++
  "  -c, --config FILE  A TOML configuration file\n" ++
  "  -h, --help         Print help\n" ++
  "  -V, --version      Print version"

def version : String := "netlist 0.1.0"

def UsageError.message : UsageError → String
  | .help => usage
  | .version => CommandLine.version
  | .noArguments | .missingCommand => "a command is required"
  | .unknownCommand => "unknown command"
  | .unknownArgument => "unexpected argument"
  | .missingOperand => "a required argument is missing"
  | .missingValue => "a value is required"
  | .unexpectedValue => "unexpected value"
  | .invalidValue => "invalid value"
  | .repeatedOption => "an option cannot be used multiple times"

end Netlist.CommandLine
