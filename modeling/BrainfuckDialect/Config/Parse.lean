import BrainfuckDialect.Config.Error
import BrainfuckDialect.Dialect
import BrainfuckDialect.Text.Blank
import BrainfuckDialect.Text.Lines

/-!
# Reading a config

A config sets canonical characters in its `[tokens]` section:

    [tokens]
    plus = "+"
    minus = -

Lines are trimmed of blanks. Empty lines and lines starting with `#` are skipped. A line
`[name]` starts a section; only lines in a section named `tokens` (after trimming the
name) are read, all others are ignored. There, a line is `key = value` with the key an
opcode key and the value one character, bare or between two `"` or two `'`. The last
setting of an opcode wins. The first line of the tokens section that breaks this is
the error, placed at a byte offset of the line as written and reported at the column of
the character there.
-/

namespace BrainfuckDialect

/-- The character between two quotes `q`, if the text is quoted with `q`. -/
def unquote (q : Char) : List Char → Option (List Char)
  | c :: rest => if c = q then
      match rest.reverse with
      | d :: mid => if d = q then some mid.reverse else none
      | [] => none
    else none
  | [] => none

/-- A value that is one character, bare or between two `"` or two `'`. -/
def readToken (value : List Char) : Option Char :=
  match ((unquote '"' value).orElse fun _ => unquote '\'' value).getD value with
  | [c] => some c
  | _ => none

/-- What one line of a config says. -/
inductive ConfigLine where
  /-- Nothing: an empty line or a comment. -/
  | skip
  /-- A section header, with the trimmed text between the brackets. -/
  | header (name : List Char)
  /-- A setting of one opcode's canonical character. -/
  | setting (op : Opcode) (c : Char)
  /-- A malformed setting, with the byte offset in the raw line where the problem
  starts. -/
  | invalid (offset : Nat) (problem : ConfigProblem)
  deriving DecidableEq, Repr

/-- Whether a trimmed line is a section header. -/
def isHeader (line : List Char) : Bool :=
  line.head? == some '[' && line.getLast? == some ']'

/-- A trimmed line of the form `key = value`, read as a setting; `indent` is the number of
bytes of the blanks before it in the raw line. A problem is placed at a byte offset of the
raw line: the start of the trimmed line when it has no `=`, the first non-blank byte of
the key when the key names no opcode, and the first non-blank byte after the `=` when the
value is not one character. The `=` is one byte, at the byte length of what precedes it. -/
def readSetting (indent : Nat) (line : List Char) : ConfigLine :=
  match line.idxOf? '=' with
  | none => .invalid indent .missingEquals
  | some eq =>
    let keyRaw := line.take eq
    let valueRaw := line.drop (eq + 1)
    let key := Text.trim keyRaw
    match Opcode.ofKey? (String.ofList key) with
    | none => .invalid (indent + Text.leadingBlankBytes keyRaw) (.unknownOpcode (String.ofList key))
    | some op =>
      match readToken (Text.trim valueRaw) with
      | none =>
        .invalid (indent + Text.byteLength keyRaw + 1 + Text.leadingBlankBytes valueRaw)
          (.notOneCharacter op)
      | some c => .setting op c

/-- What a raw line (without its terminator) says. -/
def readConfigLine (raw : List Char) : ConfigLine :=
  let line := Text.trim raw
  if line.isEmpty || line.head? == some '#' then .skip
  else if isHeader line then .header (Text.trim (line.drop 1).dropLast)
  else readSetting (Text.leadingBlankBytes raw) line

/-- The settings read from a config, in order, and the error that stopped the reading. -/
structure ConfigScan where
  settings : List (Opcode × Char)
  error : Option ConfigError
  deriving Repr

/-- Read lines numbered from `n`, inside the tokens section or not. -/
def scanConfigLines (inTokens : Bool) (n : Nat) : List (List Char) → ConfigScan
  | [] => ⟨[], none⟩
  | raw :: rest =>
    match readConfigLine raw with
    | .skip => scanConfigLines inTokens (n + 1) rest
    | .header name => scanConfigLines (name == "tokens".toList) (n + 1) rest
    | .setting op c =>
      if inTokens then
        let s := scanConfigLines inTokens (n + 1) rest
        ⟨(op, c) :: s.settings, s.error⟩
      else scanConfigLines inTokens (n + 1) rest
    | .invalid offset problem =>
      if inTokens then ⟨[], some (ConfigError.atOffset n raw offset problem)⟩
      else scanConfigLines inTokens (n + 1) rest

/-- The settings of a config and the error that stopped the reading, if any. -/
def scanConfig (content : String) : ConfigScan :=
  scanConfigLines false 1 (Text.contentLines content.toList)

/-- The dialect a config describes: the letters dialect with its settings applied. -/
def parseConfig (content : String) : Except ConfigError Dialect :=
  let s := scanConfig content
  match s.error with
  | some e => .error e
  | none => .ok (Dialect.letters.withCanonicals s.settings)

/-- The record of one setting. -/
def settingRecord (s : Opcode × Char) : Record :=
  let op := s.1
  let c := s.2
  Record.debug s!"config sets {op} to '{c}'"

/-- The records of reading a config: one per setting read before any error. -/
def configRecords (content : String) : List Record :=
  (scanConfig content).settings.map settingRecord

end BrainfuckDialect
