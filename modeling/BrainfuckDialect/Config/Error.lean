import BrainfuckDialect.Opcode
import BrainfuckDialect.Text.Utf8

/-!
# Config errors

A problem in a config file, located by its 1-based line and column. The reading finds
the problem at a byte offset of its line; the column counts the characters before that
offset, not the bytes, so it points at the same place in the echoed line whatever the
encoding.
-/

namespace BrainfuckDialect

/-- What is wrong with a line of the tokens section. -/
inductive ConfigProblem where
  /-- The line has no `=`. -/
  | missingEquals
  /-- The key names no opcode. -/
  | unknownOpcode (key : String)
  /-- The value is not one character, quoted or not. -/
  | notOneCharacter (op : Opcode)
  deriving DecidableEq, Repr

namespace ConfigProblem

/-- The text of a problem. -/
def reason : ConfigProblem → String
  | missingEquals => "expected `key = value`"
  | unknownOpcode key => s!"unknown opcode `{key}`"
  | notOneCharacter op => s!"`{op}` needs exactly one character"

end ConfigProblem

/-- A problem at a place in a config file. -/
structure ConfigError where
  /-- The 1-based number of the line. -/
  line : Nat
  /-- The 1-based column, in characters. -/
  column : Nat
  problem : ConfigProblem
  /-- The line as written, without its terminator. -/
  text : String
  deriving DecidableEq, Repr

namespace ConfigError

/-- The error of `problem` at byte `offset` of line `line`, whose text is `text`: its
column is one more than the number of characters before the offset. An offset inside a
character has no such count, and reading a config never gives one; its column would be
taken as 1. -/
def atOffset (line : Nat) (text : List Char) (offset : Nat) (problem : ConfigProblem) :
    ConfigError :=
  ⟨line, (Text.charsBefore text offset).getD 0 + 1, problem, String.ofList text⟩

/-- The text of the error: place, then problem. -/
def message (e : ConfigError) : String :=
  let line := e.line
  let column := e.column
  let reason := e.problem.reason
  s!"config line {line}, column {column}: {reason}"

end ConfigError
end BrainfuckDialect
