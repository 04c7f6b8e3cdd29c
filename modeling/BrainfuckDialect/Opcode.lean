/-!
# Opcodes

The nine operations of the language. Each opcode has a key (its name in config files and
in messages), a canonical character in the built-in letters dialect, and three fixed
source synonyms: the classic punctuation, the letter and the alternate letter.
-/

namespace BrainfuckDialect

/-- The nine operations of the language, in their fixed order. -/
inductive Opcode where
  | plus
  | minus
  | previous
  | next
  | output
  | input
  | loopStart
  | loopEnd
  | breakpoint
  deriving DecidableEq, Repr, Inhabited

namespace Opcode

/-- All opcodes, in the order in which their synonym groups are flattened. -/
def all : List Opcode :=
  [plus, minus, previous, next, output, input, loopStart, loopEnd, breakpoint]

/-- The name of an opcode in config files and in messages. -/
def key : Opcode → String
  | plus => "plus"
  | minus => "minus"
  | previous => "previous"
  | next => "next"
  | output => "output"
  | input => "input"
  | loopStart => "loop_start"
  | loopEnd => "loop_end"
  | breakpoint => "break"

/-- The position of an opcode in `Opcode.all`. -/
def index : Opcode → Nat
  | plus => 0
  | minus => 1
  | previous => 2
  | next => 3
  | output => 4
  | input => 5
  | loopStart => 6
  | loopEnd => 7
  | breakpoint => 8

/-- The first opcode, in `Opcode.all` order, whose key is `k`. -/
def ofKey? (k : String) : Option Opcode :=
  all.find? (fun op => op.key == k)

/-- The character an opcode translates to in the built-in letters dialect. -/
def defaultCanonical : Opcode → Char
  | plus => 'o'
  | minus => 'i'
  | previous => 'a'
  | next => 'e'
  | output => '.'
  | input => ','
  | loopStart => 'u'
  | loopEnd => 'y'
  | breakpoint => '#'

/-- The source characters read as this opcode: classic punctuation, letter, alternate
letter. Output and input have one spelling, written three times. -/
def synonyms : Opcode → List Char
  | plus => ['+', 'o', 'O']
  | minus => ['-', 'i', 'I']
  | previous => ['<', 'a', 'A']
  | next => ['>', 'e', 'E']
  | output => ['.', '.', '.']
  | input => [',', ',', ',']
  | loopStart => ['[', 'u', 'U']
  | loopEnd => [']', 'y', 'Y']
  | breakpoint => ['#', '?', '!']

instance : ToString Opcode := ⟨key⟩

theorem mem_all (op : Opcode) : op ∈ all := by
  cases op <;> decide

theorem ofKey?_key (op : Opcode) : ofKey? op.key = some op := by
  cases op <;> rfl

theorem index_lt (op : Opcode) : op.index < 9 := by
  cases op <;> decide

end Opcode
end BrainfuckDialect
