import Mathlib
import BrainfuckDialect.Text.Lines

/-!
# The shape of the lines of a text

Cutting a text after every line feed gives lines of one shape: none is empty, a line
feed can only be the last character of a line, and every line but the last ends with
one. This module proves that `splitLines` produces that shape, that on lines of that
shape it is a left inverse of joining, and that the shape depends only on where the line
feeds are. The last fact is what lets a translation that never creates or removes a line
feed keep a document's lines.

It also locates the characters of joined lines: the character at column `j` of line `k`
sits at the line's offset plus `j`, and every position of the joined text is one such
character.
-/

namespace BrainfuckDialect
namespace Text

/-- Lines as a text is cut into: no line is empty, a line feed can only end a line, and
every line but the last ends with one. -/
def LineShaped : List (List Char) → Prop
  | [] => True
  | [l] => l ≠ [] ∧ '\n' ∉ l.dropLast
  | l :: l' :: ls => l.getLast? = some '\n' ∧ '\n' ∉ l.dropLast ∧ LineShaped (l' :: ls)

/-- Which characters of a line are line feeds. -/
def feeds (l : List Char) : List Bool :=
  l.map (· == '\n')

theorem splitLines_of_newline_not_mem {xs : List Char}
    (hne : xs ≠ []) (h : '\n' ∉ xs) :
    splitLines xs = [xs] := by
  induction xs with
  | nil => exact absurd rfl hne
  | cons x xs ih =>
      have hx : x ≠ '\n' := fun e => h (e ▸ List.mem_cons_self)
      have hxs : '\n' ∉ xs := fun m => h (List.mem_cons_of_mem _ m)
      cases xs with
      | nil => simp [splitLines, hx]
      | cons y ys => rw [splitLines, if_neg hx, ih (List.cons_ne_nil y ys) hxs]

/-- A line without a line feed, then a line feed, is cut off as one line. -/
theorem splitLines_append_newline {xs : List Char} (h : '\n' ∉ xs)
    (rest : List Char) :
    splitLines (xs ++ '\n' :: rest) = (xs ++ ['\n']) :: splitLines rest := by
  induction xs with
  | nil => simp [splitLines]
  | cons x xs ih =>
      have hx : x ≠ '\n' := fun e => h (e ▸ List.mem_cons_self)
      have hxs : '\n' ∉ xs := fun m => h (List.mem_cons_of_mem _ m)
      simp [splitLines, hx, ih hxs]

/-- A character of a line is in the line without its last character, or is the last
one. -/
theorem mem_dropLast_or_getLast? {l : List Char} {c : Char} (h : c ∈ l) :
    c ∈ l.dropLast ∨ l.getLast? = some c := by
  have hne : l ≠ [] := List.ne_nil_of_mem h
  rw [← List.dropLast_concat_getLast hne, List.mem_append, List.mem_singleton] at h
  rcases h with h | h
  · exact Or.inl h
  · right
    rw [List.getLast?_eq_some_getLast hne, h]

/-- A line that ends in a line feed is its newline-free body followed by the feed. -/
theorem eq_dropLast_append_newline {l : List Char}
    (h : l.getLast? = some '\n') :
    l = l.dropLast ++ ['\n'] := by
  have hne : l ≠ [] := by
    rintro rfl
    simp at h
  have hlast : l.getLast hne = '\n' := by
    rw [List.getLast?_eq_some_getLast hne] at h
    exact Option.some.inj h
  calc
    l = l.dropLast ++ [l.getLast hne] := (List.dropLast_concat_getLast hne).symm
    _ = l.dropLast ++ ['\n'] := by rw [hlast]

/-- A line with no line feed before its end has none at all, or ends in one. -/
theorem newline_not_mem_or_eq_append {l : List Char} (h : '\n' ∉ l.dropLast) :
    '\n' ∉ l ∨ l = l.dropLast ++ ['\n'] := by
  by_cases hlast : l.getLast? = some '\n'
  · exact Or.inr (eq_dropLast_append_newline hlast)
  · refine Or.inl fun hmem => ?_
    rcases mem_dropLast_or_getLast? hmem with h' | h'
    · exact h h'
    · exact hlast h'

/-- Cutting the joined lines after every line feed gives the lines back. -/
theorem splitLines_flatten {ls : List (List Char)} (h : LineShaped ls) :
    splitLines ls.flatten = ls := by
  induction ls with
  | nil => rfl
  | cons l ls ih =>
      cases ls with
      | nil =>
          obtain ⟨hne, hbody⟩ := h
          rcases newline_not_mem_or_eq_append hbody with hfree | hl
          · simpa using splitLines_of_newline_not_mem hne hfree
          · rw [List.flatten_singleton, hl, splitLines_append_newline hbody]
            simp [splitLines]
      | cons l' ls =>
          obtain ⟨hlast, hbody, hrest⟩ := h
          have hl := eq_dropLast_append_newline hlast
          rw [List.flatten_cons, hl, List.append_assoc, List.singleton_append,
            splitLines_append_newline hbody, ih hrest]

theorem LineShaped.tail {l : List Char} {ls : List (List Char)}
    (h : LineShaped (l :: ls)) :
    LineShaped ls := by
  cases ls with
  | nil => trivial
  | cons l' ls => exact h.2.2

/-- In lines of the right shape a line feed can only end a line. -/
theorem LineShaped.newline_not_mem_dropLast {ls : List (List Char)} (h : LineShaped ls)
    {l : List Char} (hl : l ∈ ls) :
    '\n' ∉ l.dropLast := by
  induction ls with
  | nil => exact absurd hl List.not_mem_nil
  | cons l0 ls ih =>
      rcases List.mem_cons.1 hl with rfl | hl'
      · cases ls with
        | nil => exact h.2
        | cons l' ls => exact h.2.1
      · exact ih h.tail hl'

/-- A line read without its terminator holds no line feed, whether it ended in CR LF, in
LF, or in no terminator. -/
theorem newline_not_mem_stripTerminator {l : List Char} (h : '\n' ∉ l.dropLast) :
    '\n' ∉ stripTerminator l := by
  have hrev : l.dropLast.reverse = l.reverse.tail := List.tail_reverse.symm
  unfold stripTerminator
  split
  · rename_i rest heq
    rw [heq] at hrev
    intro hmem
    apply h
    rw [← List.mem_reverse, hrev]
    exact List.mem_cons_of_mem '\r' (List.mem_reverse.1 hmem)
  · rename_i rest heq
    rw [heq] at hrev
    intro hmem
    apply h
    rw [← List.mem_reverse, hrev]
    exact List.mem_reverse.1 hmem
  · rename_i hnot2 hnot1
    rcases newline_not_mem_or_eq_append h with hfree | hl
    · exact hfree
    · refine absurd ?_ (hnot1 l.dropLast.reverse)
      conv => lhs; rw [hl]
      simp

/-- Putting a character other than a line feed in front of the first line keeps the
shape. -/
theorem LineShaped.cons_char {c : Char} {l : List Char} {ls : List (List Char)}
    (hc : c ≠ '\n') (h : LineShaped (l :: ls)) :
    LineShaped ((c :: l) :: ls) := by
  cases ls with
  | nil =>
      obtain ⟨hne, hbody⟩ := h
      refine ⟨List.cons_ne_nil c l, ?_⟩
      rw [List.dropLast_cons_of_ne_nil hne, List.mem_cons, not_or]
      exact ⟨Ne.symm hc, hbody⟩
  | cons l' ls =>
      obtain ⟨hlast, hbody, hrest⟩ := h
      have hne : l ≠ [] := by
        rintro rfl
        simp at hlast
      refine ⟨?_, ?_, hrest⟩
      · rw [List.getLast?_cons, hlast]
        rfl
      · rw [List.dropLast_cons_of_ne_nil hne, List.mem_cons, not_or]
        exact ⟨Ne.symm hc, hbody⟩

/-- Every text is cut into lines of the right shape. By induction over the text: a line
feed is a line of its own before the lines of the rest, and any other character joins the
first of them. -/
theorem lineShaped_splitLines (cs : List Char) : LineShaped (splitLines cs) := by
  induction cs with
  | nil => trivial
  | cons c cs ih =>
      by_cases hc : c = '\n'
      · rw [splitLines, if_pos hc]
        cases hsplit : splitLines cs with
        | nil => exact ⟨List.cons_ne_nil _ _, List.not_mem_nil⟩
        | cons l ls =>
            rw [hsplit] at ih
            exact ⟨rfl, List.not_mem_nil, ih⟩
      · rw [splitLines, if_neg hc]
        cases hsplit : splitLines cs with
        | nil => exact ⟨List.cons_ne_nil _ _, List.not_mem_nil⟩
        | cons l ls =>
            rw [hsplit] at ih
            exact ih.cons_char hc

/-- The lines of a text read without terminators hold no line feed. -/
theorem newline_not_mem_contentLines {cs raw : List Char} (h : raw ∈ contentLines cs) :
    '\n' ∉ raw := by
  obtain ⟨l, hl, rfl⟩ := List.mem_map.1 h
  exact newline_not_mem_stripTerminator ((lineShaped_splitLines cs).newline_not_mem_dropLast hl)

theorem newline_mem_iff_feeds (l : List Char) : '\n' ∈ l ↔ true ∈ feeds l := by
  simp [feeds]

theorem newline_mem_dropLast_congr {l m : List Char} (h : feeds m = feeds l) :
    '\n' ∈ m.dropLast ↔ '\n' ∈ l.dropLast := by
  rw [newline_mem_iff_feeds, newline_mem_iff_feeds, feeds, feeds, List.map_dropLast,
    List.map_dropLast]
  simp only [feeds] at h
  rw [h]

theorem getLast?_newline_congr {l m : List Char} (h : feeds m = feeds l) :
    m.getLast? = some '\n' ↔ l.getLast? = some '\n' := by
  have hm : m.getLast? = some '\n' ↔ (feeds m).getLast? = some true := by
    simp [feeds]
  have hl : l.getLast? = some '\n' ↔ (feeds l).getLast? = some true := by
    simp [feeds]
  rw [hm, hl, h]

theorem ne_nil_congr {l m : List Char} (h : feeds m = feeds l) : m ≠ [] ↔ l ≠ [] := by
  have hlen : m.length = l.length := by
    simpa [feeds] using congrArg List.length h
  rw [← List.length_pos_iff, ← List.length_pos_iff, hlen]

/-- The shape of lines depends only on where their line feeds are. -/
theorem LineShaped.of_feeds {ls ls' : List (List Char)} (h : LineShaped ls)
    (hf : ls'.map feeds = ls.map feeds) :
    LineShaped ls' := by
  induction ls generalizing ls' with
  | nil =>
      rw [List.map_nil, List.map_eq_nil_iff] at hf
      subst hf
      trivial
  | cons l ls ih =>
      rw [List.map_cons, List.map_eq_cons_iff] at hf
      obtain ⟨m, ms, rfl, hm, hms⟩ := hf
      cases ls with
      | nil =>
          rw [List.map_nil, List.map_eq_nil_iff] at hms
          subst hms
          obtain ⟨hne, hbody⟩ := h
          exact ⟨(ne_nil_congr hm).2 hne, mt (newline_mem_dropLast_congr hm).1 hbody⟩
      | cons l' ls =>
          obtain ⟨hlast, hbody, hrest⟩ := h
          obtain ⟨m', ms', rfl, -, -⟩ := List.map_eq_cons_iff.mp hms
          exact ⟨(getLast?_newline_congr hm).2 hlast,
            mt (newline_mem_dropLast_congr hm).1 hbody, ih hrest hms⟩

/-! ## Positions in joined lines -/

/-- The offset, in the joined lines, of the first character of line `k`. -/
def lineOffset (ls : List (List Char)) (k : Nat) : Nat :=
  ((ls.take k).map List.length).sum

@[simp] theorem lineOffset_zero (ls : List (List Char)) : lineOffset ls 0 = 0 := by
  simp [lineOffset]

@[simp] theorem lineOffset_cons_succ (l : List Char) (ls : List (List Char)) (k : Nat) :
    lineOffset (l :: ls) (k + 1) = l.length + lineOffset ls k := by
  simp [lineOffset]

theorem lineOffset_add_lt {ls : List (List Char)} {k j : Nat}
    (hk : k < ls.length) (hj : j < ls[k].length) :
    lineOffset ls k + j < ls.flatten.length := by
  induction ls generalizing k with
  | nil => exact absurd hk (Nat.not_lt_zero k)
  | cons l ls ih =>
      cases k with
      | zero =>
          simp only [List.getElem_cons_zero] at hj
          simp only [lineOffset_zero, List.flatten_cons, List.length_append]
          omega
      | succ k =>
          have hk' : k < ls.length := by simpa using hk
          have := ih hk' (by simpa using hj)
          simp only [lineOffset_cons_succ, List.flatten_cons, List.length_append]
          omega

/-- Column `j` of line `k` is the character at the line's offset plus `j`. -/
theorem getElem_flatten_lineOffset {ls : List (List Char)} {k j : Nat}
    (hk : k < ls.length) (hj : j < ls[k].length)
    (hp : lineOffset ls k + j < ls.flatten.length) :
    ls.flatten[lineOffset ls k + j] = ls[k][j] := by
  induction ls generalizing k with
  | nil => exact absurd hk (Nat.not_lt_zero k)
  | cons l ls ih =>
      cases k with
      | zero =>
          simp only [List.getElem_cons_zero] at hj
          simp only [lineOffset_zero, Nat.zero_add, List.flatten_cons, List.getElem_cons_zero]
          exact List.getElem_append_left hj
      | succ k =>
          have hk' : k < ls.length := by simpa using hk
          have hj' : j < ls[k].length := by simpa using hj
          have hrest := lineOffset_add_lt hk' hj'
          simp only [lineOffset_cons_succ, List.flatten_cons, List.getElem_cons_succ]
          rw [List.getElem_append_right (by omega)]
          simp only [Nat.add_assoc, Nat.add_sub_cancel_left]
          exact ih hk' hj' hrest

/-- Every position of joined lines is some column of some line. -/
theorem exists_lineOffset_of_lt {ls : List (List Char)} {p : Nat}
    (hp : p < ls.flatten.length) :
    ∃ k j, ∃ hk : k < ls.length, j < ls[k].length ∧ p = lineOffset ls k + j := by
  induction ls generalizing p with
  | nil => simp at hp
  | cons l ls ih =>
      by_cases hl : p < l.length
      · exact ⟨0, p, by simp, by simpa using hl, by simp⟩
      · have hrest : p - l.length < ls.flatten.length := by
          simp only [List.flatten_cons, List.length_append] at hp
          omega
        obtain ⟨k, j, hk, hj, hkj⟩ := ih hrest
        refine ⟨k + 1, j, by simpa using hk, by simpa using hj, ?_⟩
        rw [lineOffset_cons_succ]
        omega

end Text
end BrainfuckDialect
