/-!
# Offsets in bytes

A text held as UTF-8 takes `Char.utf8Size` bytes for each character. A byte offset into
it falls between two characters, or at an end, exactly when it is the byte length of the
characters before it; `charsBefore` counts those characters there, and gives nothing for
an offset inside a character or past the end.
-/

namespace BrainfuckDialect
namespace Text

/-- The number of bytes of the characters in UTF-8. -/
def byteLength : List Char → Nat
  | [] => 0
  | c :: cs => c.utf8Size + byteLength cs

/-- The number of characters in the first `offset` bytes of the text, when the offset
falls between two characters or at an end; none when it falls inside a character or
past the end. -/
def charsBefore : List Char → Nat → Option Nat
  | _, 0 => some 0
  | [], _ + 1 => none
  | c :: cs, n + 1 =>
    if c.utf8Size ≤ n + 1 then (charsBefore cs (n + 1 - c.utf8Size)).map (· + 1) else none

@[simp] theorem byteLength_nil : byteLength [] = 0 := rfl

@[simp] theorem byteLength_cons (c : Char) (cs : List Char) :
    byteLength (c :: cs) = c.utf8Size + byteLength cs := rfl

@[simp] theorem byteLength_append (xs ys : List Char) :
    byteLength (xs ++ ys) = byteLength xs + byteLength ys := by
  induction xs with
  | nil => simp
  | cons x xs ih => simp [ih, Nat.add_assoc]

@[simp] theorem charsBefore_zero (cs : List Char) : charsBefore cs 0 = some 0 := by
  cases cs <;> rfl

/-- An offset counts `k` characters exactly when it is the byte length of the first `k`
characters. -/
theorem charsBefore_eq_some_iff {cs : List Char} {n k : Nat} :
    charsBefore cs n = some k ↔ k ≤ cs.length ∧ byteLength (cs.take k) = n := by
  induction cs generalizing n k with
  | nil => cases n <;> cases k <;> simp [charsBefore]
  | cons c cs ih =>
      have hpos := c.utf8Size_pos
      cases n with
      | zero =>
          cases k with
          | zero => simp
          | succ k =>
              simp only [charsBefore_zero, Option.some.injEq, List.length_cons,
                List.take_succ_cons, byteLength_cons]
              omega
      | succ n =>
          cases k with
          | zero => simp [charsBefore]
          | succ k =>
              by_cases hc : c.utf8Size ≤ n + 1
              · simp only [charsBefore, if_pos hc, Option.map_eq_some_iff, ih,
                  Nat.add_right_cancel_iff, exists_eq_right, List.length_cons,
                  List.take_succ_cons, byteLength_cons]
                omega
              · simp only [charsBefore, if_neg hc, reduceCtorEq, false_iff, not_and,
                  List.take_succ_cons, byteLength_cons]
                omega

/-- The byte length of characters is the size in bytes of their text. -/
theorem byteLength_eq_utf8ByteSize (cs : List Char) :
    byteLength cs = (String.ofList cs).utf8ByteSize := by
  induction cs with
  | nil => rfl
  | cons c cs ih =>
      have hsplit : String.ofList (c :: cs) = String.singleton c ++ String.ofList cs := by
        rw [String.singleton_eq_ofList, ← String.ofList_append]
        rfl
      rw [byteLength_cons, ih, hsplit, String.utf8ByteSize_append, String.utf8ByteSize_singleton]

/-- The byte length of the characters before an offset counts them. -/
theorem charsBefore_append_byteLength (pre rest : List Char) :
    charsBefore (pre ++ rest) (byteLength pre) = some pre.length := by
  rw [charsBefore_eq_some_iff, List.take_left' rfl]
  simp

end Text
end BrainfuckDialect
