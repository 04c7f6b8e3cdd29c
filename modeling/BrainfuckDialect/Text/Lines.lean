/-!
# Lines of a text

A text is cut into lines right after every line feed; each line keeps its terminator,
and a last piece without one is a line too. Joining the lines gives the text back.
The lines of a config file are read without their terminator: a line feed, and a
carriage return right before it, are dropped.
-/

namespace BrainfuckDialect
namespace Text

/-- The text cut right after each line feed. The empty text has no lines. -/
def splitLines : List Char → List (List Char)
  | [] => []
  | c :: cs =>
    if c = '\n' then ['\n'] :: splitLines cs
    else
      match splitLines cs with
      | [] => [[c]]
      | l :: ls => (c :: l) :: ls

/-- A line without its terminator: a final line feed and a carriage return before it. -/
def stripTerminator (l : List Char) : List Char :=
  match l.reverse with
  | '\n' :: '\r' :: rest => rest.reverse
  | '\n' :: rest => rest.reverse
  | _ => l

/-- The lines of a text, each without its terminator. -/
def contentLines (cs : List Char) : List (List Char) :=
  (splitLines cs).map stripTerminator

theorem flatten_splitLines (cs : List Char) : (splitLines cs).flatten = cs := by
  induction cs with
  | nil => rfl
  | cons c cs ih =>
    simp only [splitLines]
    split
    · rename_i h
      simp [h, ih]
    · revert ih
      cases splitLines cs with
      | nil => intro ih; simp [← ih]
      | cons l ls => intro ih; simp [← ih]

end Text
end BrainfuckDialect
