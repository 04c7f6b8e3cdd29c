/-!
# Log records

What the library reports while it works: one record per event, each with a level. A
record is rendered as its level in capitals between brackets, a blank, then the
message. A front end chooses which levels to show.
-/

namespace BrainfuckDialect

/-- How important a record is, from the most to the least. -/
inductive Level where
  | warn
  | info
  | debug
  deriving DecidableEq, Repr

namespace Level

/-- The level's name in a rendered record. -/
def label : Level → String
  | warn => "WARN"
  | info => "INFO"
  | debug => "DEBUG"

/-- One more than the number of levels more important than this one. -/
def rank : Level → Nat
  | warn => 1
  | info => 2
  | debug => 3

end Level

/-- One event reported by the library. -/
structure Record where
  level : Level
  message : String
  deriving DecidableEq, Repr

namespace Record

/-- A warning. -/
def warn (message : String) : Record := ⟨.warn, message⟩

/-- A progress note. -/
def info (message : String) : Record := ⟨.info, message⟩

/-- A detail for debugging. -/
def debug (message : String) : Record := ⟨.debug, message⟩

/-- The line a record is shown as: `[LEVEL] message`. -/
def render (r : Record) : String :=
  "[" ++ r.level.label ++ "] " ++ r.message

end Record
end BrainfuckDialect
