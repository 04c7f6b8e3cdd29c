import BrainfuckDialect.Opcode

/-!
# Conflicts in a dialect

The two ways a set of synonym groups can fail to give every character one meaning: a
source character claimed for two different targets, or two opcodes that share one
canonical character.
-/

namespace BrainfuckDialect

/-- Why a dialect or a list of synonym groups does not give a well-defined table. -/
inductive Conflict where
  /-- `symbol` was first bound to `first` and is bound again to `second ≠ first`. -/
  | ambiguousSynonym (symbol first second : Char)
  /-- Opcodes `first` and `second` both have the canonical character `symbol`. -/
  | sharedCanonical (symbol : Char) (first second : Opcode)
  deriving DecidableEq, Repr

namespace Conflict

/-- The text of a conflict. -/
def message : Conflict → String
  | ambiguousSynonym symbol first second =>
    s!"symbol '{symbol}' maps to both '{first}' and '{second}'"
  | sharedCanonical symbol first second =>
    s!"opcodes `{first}` and `{second}` both translate to '{symbol}'"

end Conflict
end BrainfuckDialect
