/-!
# Command-line switches

The six switches of the command line, the options they set, and the usage errors the
argument reader reports. Each switch has a long name, a one-letter short name and a
form shown in messages: `--input <PATH>` for a switch that takes a path, `--verbose...`
for the one that counts, the bare long name for the others. A usage line lists either
some switches or, as `<a|b|...>`, the choice among all six.
-/

namespace BrainfuckDialect
namespace Cli

/-- The name of the command in usage lines. -/
def commandName : String := "bf-letters"

/-- The switches of the command line. -/
inductive Switch where
  | input
  | output
  | config
  | verbose
  | quiet
  | help
  deriving DecidableEq, Repr

namespace Switch

/-- All switches, in the order in which they are declared. -/
def all : List Switch := [input, output, config, verbose, quiet, help]

/-- The long name, written after `--`. -/
def long : Switch → String
  | input => "input"
  | output => "output"
  | config => "config"
  | verbose => "verbose"
  | quiet => "quiet"
  | help => "help"

/-- The short name, written after `-`. -/
def short : Switch → Char
  | input => 'i'
  | output => 'o'
  | config => 'c'
  | verbose => 'v'
  | quiet => 'q'
  | help => 'h'

/-- Whether the switch takes a path. -/
def takesPath : Switch → Bool
  | input | output | config => true
  | _ => false

/-- How the switch is shown in messages. -/
def display (s : Switch) : String :=
  let name := "--" ++ s.long
  if s.takesPath then name ++ " <PATH>"
  else if s = verbose then name ++ "..."
  else name

/-- The switch with this long name. -/
def ofLong? (name : String) : Option Switch :=
  all.find? (fun s => s.long == name)

/-- The switch with this short name. -/
def ofShort? (c : Char) : Option Switch :=
  all.find? (fun s => s.short == c)

end Switch

/-- What the command line asks for. -/
structure Options where
  input : Option String := none
  output : Option String := none
  config : Option String := none
  /-- How many times `--verbose` was given, at most 255. -/
  verbose : Nat := 0
  quiet : Bool := false
  help : Bool := false
  deriving DecidableEq, Repr

/-- What a usage line shows after the command name. -/
inductive Usage where
  /-- These switches, or `[OPTIONS]` when there are none. -/
  | switches (given : List Switch)
  /-- The choice of one switch among all of them. -/
  | anySwitch
  deriving DecidableEq, Repr

namespace Usage

/-- The usage line, without its line feed. -/
def line : Usage → String
  | switches [] => "Usage: " ++ commandName ++ " [OPTIONS]"
  | switches given => "Usage: " ++ " ".intercalate (commandName :: given.map Switch.display)
  | anySwitch =>
    "Usage: " ++ commandName ++ " <" ++ "|".intercalate (Switch.all.map Switch.display) ++ ">"

end Usage

/-- Why a command line was refused. -/
inductive UsageError where
  /-- An argument that is no switch and no value; maybe a switch of a similar name, and
  the usage line to show. -/
  | unexpectedArgument (arg : String) (similar : Option Switch) (usage : Usage)
  /-- A switch that needs a path got none, or an empty one. -/
  | missingValue (s : Switch)
  /-- A switch given twice that may be given once. -/
  | repeated (s : Switch)
  /-- A value attached with `=` to a switch that takes none, and the usage line to show. -/
  | unexpectedValue (value : String) (s : Switch) (usage : Usage)
  deriving DecidableEq, Repr

namespace UsageError

/-- The report of a usage error, ending with a line feed. -/
def render : UsageError → String
  | unexpectedArgument arg similar usage =>
    let tip := match similar with
      | some s => "\n  tip: a similar argument exists: '--" ++ s.long ++ "'\n"
      | none => ""
    "error: unexpected argument '" ++ arg ++ "' found\n" ++ tip ++ "\n" ++ usage.line ++ "\n"
  | missingValue s =>
    "error: a value is required for '" ++ s.display ++ "' but none was supplied\n"
  | repeated s =>
    "error: the argument '" ++ s.display ++ "' cannot be used multiple times\n\n" ++
      (Usage.switches []).line ++ "\n"
  | unexpectedValue value s usage =>
    "error: unexpected value '" ++ value ++ "' for '" ++ s.display ++
      "' found; no more were expected\n\n" ++ usage.line ++ "\n"

end UsageError
end Cli
end BrainfuckDialect
