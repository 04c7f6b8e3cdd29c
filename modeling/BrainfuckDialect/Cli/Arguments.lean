import BrainfuckDialect.Cli.Similarity
import BrainfuckDialect.Cli.Switch

/-!
# Reading the command line

The arguments are read left to right. `--name` and `--name=value` are long switches,
`-abc` is a cluster of short ones, in which a switch that takes a path takes the rest
of the cluster (after an optional `=`) or else the next argument. After `--` every
argument is a stray one. A switch that takes a path, or `--quiet` or `--help`, may be
given once; `--verbose` counts.

A value is checked when its switch is settled: when the next switch is met, or at the
end. An unknown argument is reported at once, whatever is still unsettled; for an
unknown long switch the most similar long name is suggested when it is similar enough.
A value attached to a switch that takes none is reported at once too; its usage line
names that switch alone while no switch has been settled, and the choice among all
switches after.
-/

namespace BrainfuckDialect
namespace Cli

/-- The state of reading: the options so far, the switches given in the order they were
last settled, a switch still waiting for or holding its value, and whether `--` was
seen. -/
structure Reader where
  options : Options := {}
  given : List Switch := []
  pending : Option (Switch × List String) := none
  afterEscape : Bool := false

namespace Reader

/-- The reader with the path of `s` set to `v`. -/
def setPath (r : Reader) (s : Switch) (v : String) : Reader :=
  match s with
  | .input => { r with options := { r.options with input := some v } }
  | .output => { r with options := { r.options with output := some v } }
  | .config => { r with options := { r.options with config := some v } }
  | _ => r

/-- Settle switch `s` with its values. The reader is returned also on an error, since
some errors are passed over when an unknown argument is reported instead. -/
def settle (r : Reader) (s : Switch) (vals : List String) : Reader × Option UsageError :=
  match s with
  | .verbose =>
    ({ r with given := r.given.erase s ++ [s],
              options := { r.options with verbose := min 255 (r.options.verbose + 1) } }, none)
  | .quiet | .help =>
    if s ∈ r.given then ({ r with given := r.given.erase s }, some (.repeated s))
    else
      let options := if s = .quiet then { r.options with quiet := true }
        else { r.options with help := true }
      ({ r with given := r.given ++ [s], options }, none)
  | _ =>
    match vals with
    | [] => (r, some (.missingValue s))
    | v :: _ =>
      if s ∈ r.given then ({ r with given := r.given.erase s }, some (.repeated s))
      else
        let r' := { r with given := r.given ++ [s] }
        if v = "" then (r', some (.missingValue s)) else (r'.setPath s v, none)

/-- Settle the switch waiting for its value, if any. -/
def settlePending (r : Reader) : Reader × Option UsageError :=
  match r.pending with
  | none => (r, none)
  | some (s, vals) => settle { r with pending := none } s vals

/-- Settle the waiting switch, then `s` with its values. -/
def react (r : Reader) (s : Switch) (vals : List String) : Reader × Option UsageError :=
  match r.settlePending with
  | (r', some e) => (r', some e)
  | (r', none) => r'.settle s vals

/-- A step's outcome as a result: the error if there is one. -/
def check (p : Reader × Option UsageError) : Except UsageError Reader :=
  match p.2 with
  | some e => .error e
  | none => .ok p.1

/-- Make `s` wait for its value, after settling the switch waiting before it. -/
def await (r : Reader) (s : Switch) : Except UsageError Reader := do
  let r' ← check r.settlePending
  pure { r' with pending := some (s, []) }

end Reader

/-- The long name closest to `name`, among those similar enough; of equally close
ones, the last declared. -/
def suggest (name : String) : Option Switch :=
  let scored := Switch.all.map (fun s => (s, jaro name.toList s.long.toList))
  let close := scored.filter (fun p => isClose p.2)
  close.foldl (fun best p =>
    match best with
    | none => some p
    | some b => if p.2 < b.2 then some b else some p) none |>.map Prod.fst

/-- An argument that is neither a switch nor an awaited value. -/
def stray (arg : String) : Except UsageError Reader :=
  .error (.unexpectedArgument arg none (.switches []))

/-- Read `--body`, where `body` is `name` or `name=value`. A value given to a switch that
takes none is refused before a waiting switch is settled. -/
def readLong (r : Reader) (body : String) : Except UsageError Reader :=
  let name := String.ofList (body.toList.takeWhile (· != '='))
  let value := match body.toList.dropWhile (· != '=') with
    | _ :: rest => some (String.ofList rest)
    | [] => none
  match Switch.ofLong? name with
  | some s =>
    if s.takesPath then
      match value with
      | some v => Reader.check (r.react s [v])
      | none => r.await s
    else
      match value with
      | some v =>
        let usage := if r.given = [] then Usage.switches [s] else .anySwitch
        .error (.unexpectedValue v s usage)
      | none => Reader.check (r.react s [])
  | none =>
    let r' := r.settlePending.1
    match suggest name with
    | some c =>
      let given := if c ∈ r'.given then r'.given else r'.given ++ [c]
      .error (.unexpectedArgument ("--" ++ name) (some c) (.switches given))
    | none => .error (.unexpectedArgument ("--" ++ name) none (.switches r'.given))

/-- Read the letters of a cluster `-abc`. -/
def readShort (r : Reader) : List Char → Except UsageError Reader
  | [] => .ok r
  | c :: rest =>
    match Switch.ofShort? c with
    | none => .error (.unexpectedArgument ("-" ++ c.toString) none (.switches []))
    | some s =>
      if s.takesPath then
        match rest with
        | [] => r.await s
        | '=' :: v => Reader.check (r.react s [String.ofList v])
        | v => Reader.check (r.react s [String.ofList v])
      else
        match r.react s [] with
        | (_, some e) => .error e
        | (r', none) => readShort r' rest

/-- Read one argument. -/
def readArgument (r : Reader) (arg : String) : Except UsageError Reader :=
  if r.afterEscape then stray arg
  else if arg = "--" then .ok { r with afterEscape := true }
  else if arg.startsWith "--" then readLong r (String.ofList (arg.toList.drop 2))
  else if arg.startsWith "-" && arg != "-" then readShort r (arg.toList.drop 1)
  else
    match r.pending with
    | some (s, []) => .ok { r with pending := some (s, [arg]) }
    | _ => stray arg

/-- The options of a command line, or why it is refused. -/
def readArguments (args : List String) : Except UsageError Options := do
  let r ← args.foldlM readArgument {}
  let r' ← Reader.check r.settlePending
  pure r'.options

end Cli
end BrainfuckDialect
