import Mathlib
import BrainfuckDialect.Cli.Command

/-!
# The executable

The command run on the real file system: paths are read and written with the
operating system, the program's name is the name it was invoked by, the default config
file comes from `XDG_CONFIG_HOME` or `HOME`, and the outcome's streams and exit code are
passed on.
-/

namespace BrainfuckDialect

/-- The error number and text of an operating-system error, when it has them. -/
def osDetails : IO.Error → Option (UInt32 × String)
  | .alreadyExists _ code text | .noFileOrDirectory _ code text | .invalidArgument _ code text
  | .permissionDenied _ code text | .resourceExhausted _ code text
  | .inappropriateType _ code text | .noSuchThing _ code text | .interrupted _ code text
  | .otherError code text | .resourceBusy code text | .resourceVanished code text
  | .unsupportedOperation code text | .hardwareFault code text
  | .unsatisfiedConstraints code text | .illegalOperation code text
  | .protocolError code text | .timeExpired code text => some (code, text)
  | _ => none

/-- The error number of a code that may be given negated, as 32-bit. -/
def errorNumber (code : UInt32) : Nat :=
  if code.toNat ≥ 2 ^ 31 then 2 ^ 32 - code.toNat else code.toNat

/-- The text of an error with its first letter in capitals. -/
def capitalized (text : String) : String :=
  match text.toList with
  | c :: rest => String.ofList (c.toUpper :: rest)
  | [] => text

/-- The library's view of an operating-system error. -/
def IoError.ofOs (e : IO.Error) : IoError :=
  match osDetails e with
  | some (code, text) =>
    match errorNumber code with
    | 2 => .notFound
    | 20 => .notDirectory
    | 21 => .isDirectory
    | 36 => .nameTooLong
    | n =>
      let reason := capitalized text
      .other s!"{reason} (os error {n})"
  | none => .other (toString e)

/-- The operating system as a host; records go to the error stream. -/
instance : Host IO where
  readFile path := do
    if path.any (· == '\x00') then return .error .nulInPath
    try
      let bytes ← IO.FS.readBinFile path
      match String.fromUTF8? bytes with
      | some text => pure (.ok text)
      | none => pure (.error .invalidUtf8)
    catch e => pure (.error (IoError.ofOs e))
  writeFile path text := do
    if path.any (· == '\x00') then return .error .nulInPath
    try
      IO.FS.writeFile path text
      pure (.ok ())
    catch e => pure (.error (IoError.ofOs e))
  report r := IO.eprintln r.render

/-- The first argument the process was started with, from the system's text of its
arguments, each ended by a NUL; none when it was started with no arguments at all. -/
def firstArgument (cmdline : String) : Option String :=
  if cmdline = "" then none else (cmdline.splitOn "\x00").head?

/-- The name the program was invoked by, which diagnostics and the help text show: its
first argument, or the command's own name when there is none. -/
def programName : IO String := do
  try
    let cmdline ← IO.FS.readBinFile "/proc/self/cmdline"
    pure (((String.fromUTF8? cmdline).bind firstArgument).getD "bf-letters")
  catch _ => pure "bf-letters"

end BrainfuckDialect

/-- Run the command on the real file system. The default config file is under the config
home, or under the home directory when no config home is set; with no home directory
known there is none. -/
def main (args : List String) : IO UInt32 := do
  let configHome := (← IO.getEnv "XDG_CONFIG_HOME").filter (· != "")
  let home ← IO.getEnv "HOME"
  let fallback := home.map (BrainfuckDialect.defaultConfigPath configHome)
  let program ← BrainfuckDialect.programName
  let outcome ← BrainfuckDialect.Cli.run program args fallback
  IO.print outcome.stdout
  IO.eprint outcome.stderr
  pure outcome.code.toUInt32
