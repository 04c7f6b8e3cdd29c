import BrainfuckDialect.Text.Lines
import BrainfuckDialect.Translate.Line

/-!
# Documents

A document is a source text held as its lines, each with its own terminator. Translating
a document translates every line, except a first line that starts with the interpreter
directive `#!`, which is kept as it is.
-/

namespace BrainfuckDialect

/-- Whether a line starts with the interpreter directive `#!`. -/
def isDirective (line : String) : Bool :=
  ['#', '!'].isPrefixOf line.toList

/-- The index of the first line to translate: 1 after a directive line, else 0. -/
def startLine : List String → Nat
  | first :: _ => if isDirective first then 1 else 0
  | [] => 0

namespace SymbolTable

/-- Every line translated, except a leading directive line. -/
def translateLines (t : SymbolTable) (lines : List String) : List String :=
  let start := startLine lines
  lines.take start ++ (lines.drop start).map t.translateLine

end SymbolTable

/-- The records of translating `lines`. -/
def translateRecords (lines : List String) : List Record :=
  let start := startLine lines
  let n := lines.length
  let done := n - start
  (if start > 0 then [Record.debug "keeping interpreter directive line unchanged"] else []) ++
    [Record.debug s!"translated {done} of {n} lines"]

/-- A source text as its lines, each keeping its terminator. -/
structure Document where
  lines : List String
  deriving DecidableEq, Repr

namespace Document

/-- The document of a text: the text cut right after every line feed. -/
def ofText (text : String) : Document :=
  ⟨(Text.splitLines text.toList).map String.ofList⟩

/-- The text of a document: its lines joined. -/
def toText (d : Document) : String :=
  String.join d.lines

/-- The number of lines. -/
def size (d : Document) : Nat :=
  d.lines.length

/-- Whether the document has no lines. -/
def isEmpty (d : Document) : Bool :=
  d.lines.isEmpty

/-- The document translated with `t`, a leading directive line kept. -/
def translate (d : Document) (t : SymbolTable) : Document :=
  ⟨t.translateLines d.lines⟩

end Document
end BrainfuckDialect
