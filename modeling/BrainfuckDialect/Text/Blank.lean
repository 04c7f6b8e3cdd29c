import BrainfuckDialect.Text.Utf8

/-!
# Blank characters

The characters of the Unicode `White_Space` property, and trimming by them. The class
has 25 members: the controls from tab to carriage return, the space, next line, the
no-break space, the Ogham space mark, the eleven spaces from en quad to hair space, the
line and paragraph separators, the narrow no-break space, the medium mathematical space
and the ideographic space. The byte order mark is not among them.
-/

namespace BrainfuckDialect
namespace Text

/-- Whether `c` has the Unicode `White_Space` property. -/
def isBlank (c : Char) : Bool :=
  let n := c.toNat
  (0x09 ≤ n && n ≤ 0x0D) || n == 0x20 || n == 0x85 || n == 0xA0 || n == 0x1680 ||
    (0x2000 ≤ n && n ≤ 0x200A) || n == 0x2028 || n == 0x2029 || n == 0x202F ||
    n == 0x205F || n == 0x3000

/-- The text without its leading blanks. -/
def trimStart (cs : List Char) : List Char :=
  cs.dropWhile isBlank

/-- The text without its trailing blanks. -/
def trimEnd (cs : List Char) : List Char :=
  (cs.reverse.dropWhile isBlank).reverse

/-- The text without its leading and trailing blanks. -/
def trim (cs : List Char) : List Char :=
  trimEnd (trimStart cs)

/-- The number of leading blanks. -/
def leadingBlanks (cs : List Char) : Nat :=
  (cs.takeWhile isBlank).length

/-- The number of bytes of the leading blanks in UTF-8: the bytes that trimming the start
removes. -/
def leadingBlankBytes (cs : List Char) : Nat :=
  byteLength cs - byteLength (trimStart cs)

theorem isBlank_of_isWhitespace {c : Char} (h : c.isWhitespace = true) : isBlank c = true := by
  simp only [Char.isWhitespace, Bool.or_eq_true, decide_eq_true_eq] at h
  simp only [isBlank, Bool.or_eq_true, Bool.and_eq_true, decide_eq_true_eq, beq_iff_eq]
  rcases h with ((h | h) | h) | h <;> simp [h, Char.toNat]

theorem leadingBlanks_add_trimStart (cs : List Char) :
    leadingBlanks cs + (trimStart cs).length = cs.length := by
  unfold leadingBlanks trimStart
  rw [← List.length_append, List.takeWhile_append_dropWhile]

theorem leadingBlankBytes_eq_byteLength (cs : List Char) :
    leadingBlankBytes cs = byteLength (cs.takeWhile isBlank) := by
  have hsplit := congrArg byteLength (List.takeWhile_append_dropWhile (p := isBlank) (l := cs))
  rw [byteLength_append] at hsplit
  unfold leadingBlankBytes trimStart
  omega

end Text
end BrainfuckDialect
