import CigaretteSmokers.Settings

namespace CigaretteSmokers

/-- What the command line says about a run. What it leaves out comes from the settings. -/
structure RunOptions where
  config : Option String := none
  key : Option String := none
  log : Option String := none
  cigarettes : Option UInt64 := none
  seed : Option UInt64 := none
  format : Option LogFormat := none
  failOnViolation : Bool := false
  deriving DecidableEq

structure ValidateOptions where
  config : Option String := none
  key : Option String := none
  deriving DecidableEq

inductive Command
  | run (options : RunOptions)
  | validate (options : ValidateOptions)
  deriving DecidableEq

structure CommandLine where
  command : Command
  /-- The file for diagnostics, if they do not go to the standard stream. -/
  errorLog : Option String := none
  deriving DecidableEq

/-- The environment variables that stand for options. -/
structure Environment where
  key : Option String := none
  errorLog : Option String := none

/-- Why a command line is not carried out. -/
inductive Refusal
  | unknownArgument
  | missingValue
  | badNumber
  | repeatedOption
  | valueForSwitch
  | unknownCommand
  | missingCommand
  | noArguments
  | help
  | version
  deriving DecidableEq

namespace Refusal

/-- Help that was asked for is no failure. -/
def exitCode : Refusal → Nat
  | .help | .version => 0
  | _ => 2

def message : Refusal → String
  | .unknownArgument => "error: unexpected argument\n"
  | .missingValue => "error: a value is missing or is none of the possible values\n"
  | .badNumber => "error: a value is no number in range\n"
  | .repeatedOption => "error: an option cannot be used twice\n"
  | .valueForSwitch => "error: a switch takes no value\n"
  | .unknownCommand => "error: unrecognized command\n"
  | .missingCommand => "error: a command is required\n"
  | .noArguments | .help =>
      "Usage: smokers [--error-log <FILE>] <COMMAND>\n\nCommands:\n" ++
      "  run       Run the agent and the smokers until the factory closes\n" ++
      "              -c, --config <FILE>  -k, --key <KEY>  --log <FILE>  --cigarettes <N>\n" ++
      "              --seed <N>  --format <table|json>  --fail-on-invariant-violation\n" ++
      "  validate  Check settings and print them with defaults filled in\n" ++
      "              -c, --config <FILE>  -k, --key <KEY>\n" ++
      "  help      Print this help\n"
  | .version => "smokers-simulation 0.1.0\n"

end Refusal

end CigaretteSmokers
