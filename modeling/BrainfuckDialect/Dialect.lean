import BrainfuckDialect.Symbol.Table

/-!
# Dialects

A dialect gives each of the nine opcodes one canonical character. Its synonym groups
bind every fixed synonym of an opcode, and the canonical itself, to that canonical, in
`Opcode.all` order. A dialect is well formed when no two opcodes share a canonical
character (`validate`); its strict table also refuses any character claimed by two
opcodes.
-/

namespace BrainfuckDialect

/-- One canonical character per opcode. -/
structure Dialect where
  plus : Char
  minus : Char
  previous : Char
  next : Char
  output : Char
  input : Char
  loopStart : Char
  loopEnd : Char
  breakpoint : Char
  deriving DecidableEq, Repr

namespace Dialect

/-- The canonical character of an opcode. -/
def canonical (d : Dialect) : Opcode → Char
  | .plus => d.plus
  | .minus => d.minus
  | .previous => d.previous
  | .next => d.next
  | .output => d.output
  | .input => d.input
  | .loopStart => d.loopStart
  | .loopEnd => d.loopEnd
  | .breakpoint => d.breakpoint

/-- The dialect with the canonical of `op` set to `c`. -/
def withCanonical (d : Dialect) (op : Opcode) (c : Char) : Dialect :=
  match op with
  | .plus => { d with plus := c }
  | .minus => { d with minus := c }
  | .previous => { d with previous := c }
  | .next => { d with next := c }
  | .output => { d with output := c }
  | .input => { d with input := c }
  | .loopStart => { d with loopStart := c }
  | .loopEnd => { d with loopEnd := c }
  | .breakpoint => { d with breakpoint := c }

/-- The built-in letters dialect: `o i a e . , u y #`. -/
def letters : Dialect :=
  ⟨Opcode.plus.defaultCanonical, Opcode.minus.defaultCanonical,
    Opcode.previous.defaultCanonical, Opcode.next.defaultCanonical,
    Opcode.output.defaultCanonical, Opcode.input.defaultCanonical,
    Opcode.loopStart.defaultCanonical, Opcode.loopEnd.defaultCanonical,
    Opcode.breakpoint.defaultCanonical⟩

instance : Inhabited Dialect := ⟨letters⟩

/-- Set canonicals one after another; a later setting of an opcode wins. -/
def withCanonicals (d : Dialect) (settings : List (Opcode × Char)) : Dialect :=
  settings.foldl (fun acc s => acc.withCanonical s.1 s.2) d

/-- The synonym group of one opcode: its canonical, then its fixed synonyms. -/
def group (d : Dialect) (op : Opcode) : SynonymGroup :=
  ⟨d.canonical op, op.synonyms⟩

/-- One synonym group per opcode, in `Opcode.all` order. -/
def groups (d : Dialect) : List SynonymGroup :=
  Opcode.all.map d.group

/-- The table in which a later group wins a character claimed twice. -/
def table (d : Dialect) : SymbolTable :=
  SymbolTable.build d.groups

/-- The first opcode of `ops` that shares its canonical with a later one, with the
earliest such later opcode. -/
def firstShared (d : Dialect) : List Opcode → Option Conflict
  | [] => none
  | a :: rest =>
    match rest.find? (fun b => d.canonical a == d.canonical b) with
    | some b => some (.sharedCanonical (d.canonical a) a b)
    | none => d.firstShared rest

/-- Refuses a dialect in which two opcodes share a canonical character; the pair
reported is the first in `Opcode.all` order. -/
def validate (d : Dialect) : Except Conflict Unit :=
  match d.firstShared Opcode.all with
  | some c => .error c
  | none => .ok ()

/-- The table of a well-formed dialect in which no character is claimed twice. -/
def strictTable (d : Dialect) : Except Conflict SymbolTable :=
  match d.validate with
  | .error c => .error c
  | .ok () => SymbolTable.buildStrict d.groups

/-- The records of `d.table`. -/
def tableRecords (d : Dialect) : List Record :=
  SymbolTable.buildRecords d.groups

/-- The records of `d.strictTable`. -/
def strictTableRecords (d : Dialect) : List Record :=
  match d.validate with
  | .error _ => []
  | .ok () => SymbolTable.buildStrictRecords d.groups

@[simp] theorem canonical_withCanonical (d : Dialect) (op op' : Opcode) (c : Char) :
    (d.withCanonical op c).canonical op' = if op' = op then c else d.canonical op' := by
  cases op <;> cases op' <;> rfl

theorem letters_canonical (op : Opcode) : letters.canonical op = op.defaultCanonical := by
  cases op <;> rfl

end Dialect
end BrainfuckDialect
