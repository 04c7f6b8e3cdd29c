import BrainfuckDialect.Symbol.Table

/-!
# Translating a line

A line is split at the first comment marker `//`. Every character before it is
mapped through the symbol table; the marker and everything after it are kept as they
are. A line without a marker is mapped whole.
-/

namespace BrainfuckDialect

/-- The code of a line and its comment: the comment starts at the first `//` and is
empty when there is none. -/
def splitComment : List Char → List Char × List Char
  | [] => ([], [])
  | '/' :: '/' :: rest => ([], '/' :: '/' :: rest)
  | c :: rest =>
    let parts := splitComment rest
    (c :: parts.1, parts.2)

namespace SymbolTable

/-- The characters of a line with its code mapped and its comment kept. -/
def translateChars (t : SymbolTable) (cs : List Char) : List Char :=
  let parts := splitComment cs
  parts.1.map t.mapChar ++ parts.2

/-- The line with its code mapped and its comment kept. -/
def translateLine (t : SymbolTable) (line : String) : String :=
  String.ofList (t.translateChars line.toList)

end SymbolTable

theorem splitComment_append (cs : List Char) : (splitComment cs).1 ++ (splitComment cs).2 = cs := by
  induction cs with
  | nil => rfl
  | cons c rest ih =>
    match c, rest, ih with
    | '/', '/' :: r, _ => simp [splitComment]
    | '/', [], _ => simp [splitComment]
    | c, r, ih =>
      unfold splitComment
      split <;> simp_all

end BrainfuckDialect
