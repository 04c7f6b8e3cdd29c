import BrainfuckDialect.Cli.Arguments
import BrainfuckDialect.Job

/-!
# The command

Running the command: read the options, then either show the help text or translate the
input file into the output file. The records of the job are shown on the error
stream, as many as the verbosity asks for: warnings only by default, progress notes
with one `-v`, everything with two. The translated text is echoed on the output stream
unless `--quiet` is given. The exit code is 0 on success, 1 when the job fails
and 2 when the command line is refused.
-/

namespace BrainfuckDialect
namespace Cli

/-- What a run of the command shows and returns. -/
structure Outcome where
  code : Nat
  stdout : String
  stderr : String
  deriving DecidableEq, Repr

/-- The help text, ending with an empty line. -/
def helpText (program : String) : String :=
  "Usage:\n" ++
  "  " ++ program ++ " [-i <PATH>] [-o <PATH>]\n" ++
  "\n" ++
  "Options:\n" ++
  "  --input,   -i <PATH>  Source file to translate (default: input.bf)\n" ++
  "  --output,  -o <PATH>  Destination file (default: output.bf)\n" ++
  "  --config,  -c <PATH>  Dialect config (default: $XDG_CONFIG_HOME/" ++ configFileName ++
    " if present)\n" ++
  "  --verbose, -v         More log output on stderr (repeat for debug)\n" ++
  "  --quiet,   -q         Do not echo the translated text to stdout\n" ++
  "  --help,    -h         Show this help\n" ++
  "\n" ++
  "Description:\n" ++
  "  Rewrites Brainfuck source written with punctuation (+-<>.,[]) or the\n" ++
  "  alternate letters (O I A E U Y !) into the letters dialect (o i a e u y #).\n" ++
  "\n" ++
  "Notes:\n" ++
  "  - Everything after `//` on a line is copied unchanged.\n" ++
  "  - A first line starting with `#!` is copied unchanged.\n" ++
  "  - Characters that are not opcodes pass through as they are.\n" ++
  "  - The result is written to the output file and echoed to stdout.\n" ++
  "\n" ++
  "Config (translate back to classic punctuation):\n" ++
  "    [tokens]\n" ++
  "    plus = \"+\"\n" ++
  "    loop_start = \"[\"\n" ++
  "\n"

/-- The number right-aligned in a field of four, then ` | `. -/
def gutter (n : Nat) : String :=
  let digits := toString n
  String.ofList (List.replicate (4 - digits.length) ' ') ++ digits ++ " | "

/-- The config line of an error with its number, and a caret under its column. -/
def configContext (e : ConfigError) : String :=
  let g := gutter e.line
  g ++ e.text ++ "\n" ++
    String.ofList (List.replicate (g.length + (e.column - 1)) ' ') ++ "^\n"

/-- The error stream's report of a failed job. -/
def failureReport (program : String) : JobError → String
  | .config e => program ++ ": error: invalid config: " ++ e.problem.reason ++ "\n" ++ configContext e
  | .conflict c => program ++ ": error: ambiguous dialect: " ++ c.message ++ "\n"
  | e => program ++ ": error: " ++ e.message ++ "\n"

/-- The most detailed level shown for a number of `-v`: 0 warnings, 1 progress, 2 all. -/
def shownRank (verbose : Nat) : Nat :=
  match min 255 (verbose + 1) with
  | 0 | 1 => Level.warn.rank
  | 2 => Level.info.rank
  | _ => Level.debug.rank

/-- The records shown at a verbosity, one per line. -/
def shownRecords (verbose : Nat) (records : List Record) : String :=
  String.join ((records.filter (fun r => r.level.rank ≤ shownRank verbose)).map
    (fun r => r.render ++ "\n"))

/-- A host that keeps the records reported in it, to show them later. -/
instance {m : Type → Type} [Monad m] [Host m] : Host (StateT (List Record) m) where
  readFile path := fun rs => do
    let r ← Host.readFile (m := m) path
    pure (r, rs)
  writeFile path text := fun rs => do
    let r ← Host.writeFile (m := m) path text
    pure (r, rs)
  report r := modify (· ++ [r])

/-- Run the command with the program name `program` and the arguments `args`; `fallback`
is the default config file, if one is known. -/
def run {m : Type → Type} [Monad m] [Host m] (program : String) (args : List String)
    (fallback : Option String) : m Outcome := do
  match readArguments args with
  | .error e => pure ⟨2, "", e.render⟩
  | .ok opts =>
    if opts.help then pure ⟨0, "", helpText program⟩
    else
      let input := opts.input.getD "input.bf"
      let output := opts.output.getD "output.bf"
      let job : ExceptT JobError (StateT (List Record) m) Document :=
        translateFile input output opts.config fallback
      let (result, records) ← job.run.run []
      let logs := shownRecords opts.verbose records
      match result with
      | .ok doc =>
        let warning := if doc.isEmpty then program ++ ": warning: " ++ input ++ " is empty\n" else ""
        let echo := if opts.quiet then "" else doc.toText ++ "\n"
        pure ⟨0, echo, logs ++ warning⟩
      | .error e => pure ⟨1, "", logs ++ failureReport program e⟩

end Cli
end BrainfuckDialect
