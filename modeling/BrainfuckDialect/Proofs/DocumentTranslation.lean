import BrainfuckDialect.Translate.Document
import BrainfuckDialect.Proofs.LineTranslation

/-!
# Translating a document

A document is translated line by line, except that a first line starting with the
directive `#!` is kept. This module describes the result three ways: line by line, on
the text position by position, and, for a table that leaves line feeds alone, by the
document read back from the translated text, which has exactly the translated lines.

The text view goes through the lines as lists of characters; the positions of the text
are located in its lines with `Text.lineOffset`. A last section shows translation to be
one pass over the text (`SymbolTable.scanText`), which is how a second translation of
a text read back is seen to change nothing.
-/

namespace BrainfuckDialect

theorem isDirective_iff (line : String) :
    isDirective line = true ↔ ['#', '!'] <+: line.toList := by
  simp [isDirective, List.isPrefixOf_iff_prefix]

/-- Only the first line can be kept, and only when it is a directive. -/
theorem lt_startLine_iff (lines : List String) (i : Nat) :
    i < startLine lines ↔ ∃ l, lines[0]? = some l ∧ i = 0 ∧ isDirective l = true := by
  cases lines with
  | nil => simp [startLine]
  | cons l ls =>
      by_cases hl : isDirective l = true
      · simp [startLine, hl]
      · simp [startLine, hl]

/-- Line `k`, when it is `l`, is kept exactly when it is the first line and a
directive. -/
theorem lt_startLine_iff_of_getElem? {lines : List String} {k : Nat} {l : String}
    (hl : lines[k]? = some l) :
    k < startLine lines ↔ k = 0 ∧ ['#', '!'] <+: l.toList := by
  rw [lt_startLine_iff, ← isDirective_iff]
  constructor
  · rintro ⟨l0, h0, rfl, hd⟩
    rw [hl] at h0
    cases h0
    exact ⟨rfl, hd⟩
  · rintro ⟨rfl, hd⟩
    exact ⟨l, hl, rfl, hd⟩

theorem startLine_le_length (lines : List String) : startLine lines ≤ lines.length := by
  cases lines with
  | nil => simp [startLine]
  | cons l ls =>
      simp only [startLine, List.length_cons]
      split <;> omega

namespace SymbolTable

variable (t : SymbolTable)

@[simp] theorem length_translateLines (lines : List String) :
    (t.translateLines lines).length = lines.length := by
  have hstart := startLine_le_length lines
  simp [translateLines]
  omega

/-- Line `i` of a translated document: kept when it is a leading directive line, else
translated. -/
theorem getElem?_translateLines (lines : List String) (i : Nat) :
    (t.translateLines lines)[i]? =
      lines[i]?.map (fun l => if i < startLine lines then l else t.translateLine l) := by
  have hstart := startLine_le_length lines
  simp only [translateLines]
  by_cases hi : i < startLine lines
  · have hlen : i < (lines.take (startLine lines)).length := by
      simp only [List.length_take]
      omega
    rw [List.getElem?_append_left hlen, List.getElem?_take]
    simp [hi]
  · have hlen : (lines.take (startLine lines)).length ≤ i := by
      simp only [List.length_take]
      omega
    rw [List.getElem?_append_right hlen, List.getElem?_map, List.getElem?_drop]
    have hidx : startLine lines + (i - (lines.take (startLine lines)).length) = i := by
      simp only [List.length_take]
      omega
    rw [hidx]
    simp [hi]

/-- Line by line: a translated document has as many lines as the document; a leading
directive line is kept, and every other line has as many characters as before, the
ones before its first comment marker mapped and the others kept. -/
theorem translateLines_lineByLine (lines : List String) :
    (t.translateLines lines).length = lines.length ∧
      ∀ i (l : String), lines[i]? = some l →
        (i = 0 ∧ ['#', '!'] <+: l.toList → (t.translateLines lines)[i]? = some l) ∧
        (¬(i = 0 ∧ ['#', '!'] <+: l.toList) →
          ∃ l', (t.translateLines lines)[i]? = some l' ∧ l'.length = l.length ∧
            ∀ j, l'.toList[j]? =
              l.toList[j]?.map
                (fun c => if BeforeMarker l.toList j then t.mapChar c else c)) := by
  refine ⟨t.length_translateLines lines, ?_⟩
  intro i l hl
  have hkept := lt_startLine_iff_of_getElem? hl
  rw [getElem?_translateLines, hl, Option.map_some]
  constructor
  · intro h
    rw [if_pos (hkept.2 h)]
  · intro h
    rw [if_neg (mt hkept.1 h)]
    refine ⟨t.translateLine l, rfl, ?_, ?_⟩
    · rw [← String.length_toList, ← String.length_toList, toList_translateLine,
        length_translateChars]
    · intro j
      rw [toList_translateLine, getElem?_translateChars]

/-- A kept directive line stays the first line, so it is kept again. -/
theorem lt_startLine_translateLines {lines : List String} {i : Nat}
    (h : i < startLine lines) :
    i < startLine (t.translateLines lines) := by
  obtain ⟨l, h0, rfl, hd⟩ := (lt_startLine_iff lines i).1 h
  refine (lt_startLine_iff _ 0).2 ⟨l, ?_, rfl, hd⟩
  rw [getElem?_translateLines, h0, Option.map_some, if_pos h]

/-- With an idempotent character map, translating a translated document changes
nothing. A translated first line may have become a directive; it is then kept, which
changes nothing either. -/
theorem translateLines_translateLines
    (hm : ∀ c, t.mapChar (t.mapChar c) = t.mapChar c) (lines : List String) :
    t.translateLines (t.translateLines lines) = t.translateLines lines := by
  apply List.ext_getElem?
  intro i
  rw [getElem?_translateLines t (t.translateLines lines), getElem?_translateLines t lines,
    Option.map_map]
  congr 1
  funext l
  by_cases hi : i < startLine lines
  · simp [hi, lt_startLine_translateLines t hi]
  · by_cases hi' : i < startLine (t.translateLines lines)
    · simp [hi, hi']
    · simp [hi, hi', translateLine_translateLine t hm]

/-- The translated lines, as characters: a kept line as it is, any other line
translated. -/
theorem getElem?_map_toList_translateLines (lines : List String) (k : Nat) :
    ((t.translateLines lines).map String.toList)[k]? =
      lines[k]?.map (fun l =>
        if k < startLine lines then l.toList else t.translateChars l.toList) := by
  rw [List.getElem?_map, getElem?_translateLines, Option.map_map]
  congr 1
  funext l
  by_cases hk : k < startLine lines
  · simp [hk]
  · simp [hk, toList_translateLine]

/-- Translating keeps the length of every line. -/
theorem map_length_translateLines (lines : List String) :
    ((t.translateLines lines).map String.toList).map List.length =
      (lines.map String.toList).map List.length := by
  apply List.ext_getElem?
  intro k
  rw [List.getElem?_map, getElem?_map_toList_translateLines, List.getElem?_map,
    List.getElem?_map, Option.map_map, Option.map_map]
  congr 1
  funext l
  by_cases hk : k < startLine lines
  · simp [hk]
  · simp [hk]

end SymbolTable

namespace Document

theorem toList_toText (d : Document) :
    d.toText.toList = (d.lines.map String.toList).flatten := by
  rw [toText, String.toList_join, List.flatMap_def]

theorem map_toList_ofText (s : String) :
    (ofText s).lines.map String.toList = Text.splitLines s.toList := by
  simp [ofText]

theorem flatten_map_toList_ofText (s : String) :
    ((ofText s).lines.map String.toList).flatten = s.toList := by
  rw [map_toList_ofText, Text.flatten_splitLines]

@[simp] theorem translate_lines (d : Document) (t : SymbolTable) :
    (d.translate t).lines = t.translateLines d.lines := rfl

end Document

namespace Text

theorem lineOffset_congr {ls ls' : List (List Char)}
    (h : ls'.map List.length = ls.map List.length) (k : Nat) :
    lineOffset ls' k = lineOffset ls k := by
  simp only [lineOffset, List.map_take, h]

/-- Column `j` of a line is found at the line's offset in the joined lines. -/
theorem getElem?_flatten_lineOffset {ls : List (List Char)} {k j : Nat} {l : List Char}
    (hl : ls[k]? = some l) (hj : j < l.length) :
    ls.flatten[lineOffset ls k + j]? = l[j]? := by
  obtain ⟨hk, hlk⟩ := List.getElem?_eq_some_iff.mp hl
  have hj' : j < ls[k].length := by rw [hlk]; exact hj
  have hp := lineOffset_add_lt hk hj'
  rw [List.getElem?_eq_getElem hp, getElem_flatten_lineOffset hk hj' hp,
    List.getElem?_eq_getElem hj]
  simp only [hlk]

end Text

/-- Position `p` of a text lies in the code of a line that translation rewrites: it is
column `j` of line `k`, that line is not a leading directive line, and column `j` comes
before the line's first comment marker. -/
def CodePosition (s : String) (p : Nat) : Prop :=
  ∃ k j l, (Document.ofText s).lines[k]? = some l ∧ j < l.length ∧
    p = Text.lineOffset ((Document.ofText s).lines.map String.toList) k + j ∧
    ¬(k = 0 ∧ ['#', '!'] <+: l.toList) ∧ BeforeMarker l.toList j

namespace Document

variable {s : String} {k j : Nat} {l : String}

theorem getElem?_toList_lineOffset
    (hl : (ofText s).lines[k]? = some l) (hj : j < l.length) :
    s.toList[Text.lineOffset ((ofText s).lines.map String.toList) k + j]? =
      l.toList[j]? := by
  have hline : ((ofText s).lines.map String.toList)[k]? = some l.toList := by
    rw [List.getElem?_map, hl, Option.map_some]
  rw [← flatten_map_toList_ofText s]
  exact Text.getElem?_flatten_lineOffset hline (by rwa [String.length_toList])

/-- Every position of a text is a column of one of its lines. -/
theorem exists_lineOffset_of_lt {p : Nat} (hp : p < s.length) :
    ∃ k j l, (ofText s).lines[k]? = some l ∧ j < l.length ∧
      p = Text.lineOffset ((ofText s).lines.map String.toList) k + j := by
  rw [← String.length_toList, ← flatten_map_toList_ofText s] at hp
  obtain ⟨k, j, hk, hj, rfl⟩ := Text.exists_lineOffset_of_lt hp
  have hk' : k < (ofText s).lines.length := by simpa using hk
  refine ⟨k, j, (ofText s).lines[k], List.getElem?_eq_getElem hk', ?_, rfl⟩
  simpa [← String.length_toList] using hj

/-- Column `j` of line `k` of a translated text: mapped exactly when the line is
translated and the column is before the line's first comment marker. -/
theorem getElem?_translate_toText_lineOffset (t : SymbolTable)
    (hl : (ofText s).lines[k]? = some l) (hj : j < l.length) :
    ((ofText s).translate t).toText.toList[
        Text.lineOffset ((ofText s).lines.map String.toList) k + j]? =
      l.toList[j]?.map (fun c =>
        if ¬k < startLine (ofText s).lines ∧ BeforeMarker l.toList j then t.mapChar c
        else c) := by
  have hline := t.getElem?_map_toList_translateLines (ofText s).lines k
  rw [hl, Option.map_some] at hline
  have hj' : j < l.toList.length := by rwa [String.length_toList]
  rw [toList_toText, translate_lines,
    ← Text.lineOffset_congr (t.map_length_translateLines _)]
  by_cases hk : k < startLine (ofText s).lines
  · rw [if_pos hk] at hline
    rw [Text.getElem?_flatten_lineOffset hline hj']
    simp [hk]
  · rw [if_neg hk] at hline
    rw [Text.getElem?_flatten_lineOffset hline (by rwa [SymbolTable.length_translateChars]),
      SymbolTable.getElem?_translateChars]
    simp [hk]

end Document

/-! ## Reading a translated text back -/

/-- The table leaves line feeds alone: the line feed is not a source, and no source is
mapped to a line feed. -/
def SymbolTable.KeepsLineFeeds (t : SymbolTable) : Prop :=
  t.get '\n' = none ∧ ∀ c, t.get c ≠ some '\n'

theorem SymbolTable.mapChar_eq_newline_iff {t : SymbolTable} (h : t.KeepsLineFeeds)
    (c : Char) :
    t.mapChar c = '\n' ↔ c = '\n' := by
  rw [mapChar_eq]
  by_cases hc : c = '\n'
  · rw [hc, h.1]
    simp
  · cases hget : t.get c with
    | none => simp [hc]
    | some x =>
        have hx : x ≠ '\n' := fun e => h.2 c (by rw [hget, e])
        simp [hc, hx]

/-- Translating with a table that leaves line feeds alone keeps the line feeds of every
line where they are. -/
theorem SymbolTable.feeds_translateLines {t : SymbolTable} (h : t.KeepsLineFeeds)
    (lines : List String) :
    ((t.translateLines lines).map String.toList).map Text.feeds =
      (lines.map String.toList).map Text.feeds := by
  apply List.ext_getElem?
  intro k
  rw [List.getElem?_map, t.getElem?_map_toList_translateLines, List.getElem?_map,
    List.getElem?_map, Option.map_map, Option.map_map]
  congr 1
  funext l
  by_cases hk : k < startLine lines
  · simp [hk]
  · simp [hk, t.feeds_translateChars (t.mapChar_eq_newline_iff h)]

/-- With a table that leaves line feeds alone, the document read back from a translated
text is the translated document: it has the same lines, one for one. -/
theorem ofText_translate_toText {t : SymbolTable} (h : t.KeepsLineFeeds) (s : String) :
    Document.ofText ((Document.ofText s).translate t).toText =
      (Document.ofText s).translate t := by
  have hshape : Text.LineShaped
      ((t.translateLines (Document.ofText s).lines).map String.toList) := by
    apply (Text.lineShaped_splitLines s.toList).of_feeds
    rw [t.feeds_translateLines h, Document.map_toList_ofText]
  have htext : ((Document.ofText s).translate t).toText.toList =
      ((t.translateLines (Document.ofText s).lines).map String.toList).flatten := by
    rw [Document.toList_toText, Document.translate_lines]
  show Document.mk _ = Document.mk _
  rw [htext, Text.splitLines_flatten hshape, List.map_map]
  simp

/-! ## Translation as one pass over the text

Translating a document is one left-to-right pass over its text in two regions: code,
where characters are mapped until a comment marker, and kept text, copied up to and
including the next line feed. A text that opens with a directive starts in kept text.
Lines play no other part: a marker cannot straddle a line feed, and every line but the
first starts in code.
-/

/-- Where a pass over a text is: in code, which is mapped, or in text that is kept up
to the end of its line (a comment, or a leading directive line). -/
inductive Region where
  | code
  | kept
  deriving DecidableEq, Repr

namespace SymbolTable

variable (t : SymbolTable)

/-- One pass over a text from a region. -/
def scan : Region → List Char → List Char
  | _, [] => []
  | .code, '/' :: '/' :: rest => '/' :: '/' :: scan .kept rest
  | .code, c :: rest => t.mapChar c :: scan .code rest
  | .kept, c :: rest => c :: scan (if c = '\n' then .code else .kept) rest

/-- The pass over a whole text: it starts in kept text when the text opens with a
directive. -/
def scanText (cs : List Char) : List Char :=
  t.scan (if ['#', '!'] <+: cs then .kept else .code) cs

/-- The side condition of the generated equations, read as "no marker at the start". -/
theorem not_split_of_not_markerAt {c : Char} {rest : List Char}
    (h : ¬MarkerAt (c :: rest) 0) :
    ∀ r, c = '/' → rest = '/' :: r → False := by
  rintro r rfl rfl
  exact h ⟨rfl, rfl⟩

@[simp] theorem scan_nil (r : Region) : t.scan r [] = [] := by
  cases r <;> rfl

theorem scan_code_cons {c : Char} {rest : List Char} (h : ¬MarkerAt (c :: rest) 0) :
    t.scan .code (c :: rest) = t.mapChar c :: t.scan .code rest :=
  scan.eq_3 t c rest (not_split_of_not_markerAt h)

@[simp] theorem scan_code_marker (rest : List Char) :
    t.scan .code ('/' :: '/' :: rest) = '/' :: '/' :: t.scan .kept rest :=
  scan.eq_2 t rest

@[simp] theorem scan_kept_cons (c : Char) (rest : List Char) :
    t.scan .kept (c :: rest) = c :: t.scan (if c = '\n' then .code else .kept) rest :=
  scan.eq_4 t c rest

/-- Kept text is copied up to and including its line feed. -/
theorem scan_kept_line {body : List Char} (h : '\n' ∉ body) (rest : List Char) :
    t.scan .kept (body ++ '\n' :: rest) = body ++ '\n' :: t.scan .code rest := by
  induction body with
  | nil => simp
  | cons c body ih =>
      have hc : c ≠ '\n' := fun e => h (e ▸ List.mem_cons_self)
      rw [List.cons_append, scan_kept_cons, if_neg hc,
        ih (fun m => h (List.mem_cons_of_mem c m)), List.cons_append]

/-- Kept text without a line feed is copied to the end. -/
theorem scan_kept_of_newline_not_mem {l : List Char} (h : '\n' ∉ l) :
    t.scan .kept l = l := by
  induction l with
  | nil => rfl
  | cons c l ih =>
      have hc : c ≠ '\n' := fun e => h (e ▸ List.mem_cons_self)
      rw [scan_kept_cons, if_neg hc, ih (fun m => h (List.mem_cons_of_mem c m))]

theorem not_markerAt_append {c x : Char} {body rest : List Char}
    (h : ¬MarkerAt (c :: body) 0) (hx : x ≠ '/') :
    ¬MarkerAt (c :: (body ++ x :: rest)) 0 := by
  rintro ⟨hc, hnext⟩
  cases body with
  | nil =>
      simp only [List.nil_append, List.getElem?_cons_succ, List.getElem?_cons_zero,
        Option.some.injEq] at hnext
      exact hx hnext
  | cons d body =>
      simp only [List.cons_append, List.getElem?_cons_succ, List.getElem?_cons_zero] at hnext
      exact h ⟨hc, by simpa using hnext⟩

/-- A code line ending in a line feed is translated as a line, and the pass goes on in
code. -/
theorem scan_code_line {body : List Char} (h : '\n' ∉ body) (rest : List Char) :
    t.scan .code (body ++ '\n' :: rest) =
      t.translateChars (body ++ ['\n']) ++ t.scan .code rest := by
  induction body using splitComment.induct with
  | case1 =>
      have hfeed : ∀ r, ¬MarkerAt ('\n' :: r) 0 := fun r hm => by simp [MarkerAt] at hm
      rw [List.nil_append, scan_code_cons t (hfeed rest), List.nil_append,
        translateChars_cons t (hfeed [])]
      rfl
  | case2 body =>
      have hbody : '\n' ∉ body := fun m => h (List.mem_cons_of_mem _ (List.mem_cons_of_mem _ m))
      simp [scan_kept_line t hbody]
  | case3 c body hsplit ih =>
      have h0 := not_markerAt_zero hsplit
      have hc : c ≠ '\n' := fun e => h (e ▸ List.mem_cons_self)
      have hbody : '\n' ∉ body := fun m => h (List.mem_cons_of_mem c m)
      rw [List.cons_append, scan_code_cons t (not_markerAt_append h0 (by decide)), ih hbody,
        List.cons_append, translateChars_cons t (not_markerAt_append h0 (by decide)),
        List.cons_append]

/-- A code line without a line feed is translated as a line. -/
theorem scan_code_of_newline_not_mem {l : List Char} (h : '\n' ∉ l) :
    t.scan .code l = t.translateChars l := by
  induction l using splitComment.induct with
  | case1 => rfl
  | case2 body =>
      have hbody : '\n' ∉ body := fun m => h (List.mem_cons_of_mem _ (List.mem_cons_of_mem _ m))
      simp [scan_kept_of_newline_not_mem t hbody]
  | case3 c body hsplit ih =>
      have h0 := not_markerAt_zero hsplit
      rw [scan_code_cons t h0, translateChars_cons t h0,
        ih (fun m => h (List.mem_cons_of_mem c m))]

/-- Over lines of a text, the pass in code translates every line. -/
theorem scan_code_flatten {ls : List (List Char)} (h : Text.LineShaped ls) :
    t.scan .code ls.flatten = (ls.map t.translateChars).flatten := by
  induction ls with
  | nil => rfl
  | cons l ls ih =>
      cases ls with
      | nil =>
          obtain ⟨-, hbody⟩ := h
          rcases Text.newline_not_mem_or_eq_append hbody with hfree | hl
          · simp [scan_code_of_newline_not_mem t hfree]
          · rw [List.flatten_singleton, List.map_singleton, List.flatten_singleton, hl,
              scan_code_line t hbody, scan_nil, List.append_nil]
      | cons l' ls =>
          obtain ⟨hlast, hbody, hrest⟩ := h
          have hl := Text.eq_dropLast_append_newline hlast
          rw [List.flatten_cons, hl, List.append_assoc, List.singleton_append,
            scan_code_line t hbody, ih hrest]
          simp only [List.map_cons, List.flatten_cons]

/-- Over lines of a text, the pass in kept text keeps the first line and translates
the others. -/
theorem scan_kept_flatten {l : List Char} {ls : List (List Char)}
    (h : Text.LineShaped (l :: ls)) :
    t.scan .kept (l :: ls).flatten = l ++ t.scan .code ls.flatten := by
  cases ls with
  | nil =>
      obtain ⟨-, hbody⟩ := h
      rcases Text.newline_not_mem_or_eq_append hbody with hfree | hl
      · simp [scan_kept_of_newline_not_mem t hfree]
      · rw [List.flatten_singleton, hl, scan_kept_line t hbody]
        simp [scan]
  | cons l' ls =>
      obtain ⟨hlast, hbody, -⟩ := h
      have hl := Text.eq_dropLast_append_newline hlast
      rw [List.flatten_cons, hl, List.append_assoc, List.singleton_append,
        scan_kept_line t hbody, List.append_assoc, List.singleton_append]

/-! ### A second pass -/

/-- Text that the pass in code leaves as it is, the pass in kept text leaves too: its
code characters are fixed points, and kept text maps nothing. -/
theorem scan_kept_of_scan_code {cs : List Char} (h : t.scan .code cs = cs) :
    t.scan .kept cs = cs := by
  induction cs using splitComment.induct with
  | case1 => rfl
  | case2 rest =>
      rw [scan_code_marker, List.cons.injEq, List.cons.injEq] at h
      simp [h.2.2]
  | case3 c rest hsplit ih =>
      rw [scan_code_cons t (not_markerAt_zero hsplit), List.cons.injEq] at h
      rw [scan_kept_cons]
      by_cases hc : c = '\n'
      · rw [if_pos hc, h.2]
      · rw [if_neg hc, ih h.2]

/-- The same after a slash: what follows a slash that the pass in code leaves alone is
left alone by the pass in kept text. -/
theorem scan_kept_of_scan_code_slash {cs : List Char}
    (h : t.scan .code ('/' :: cs) = '/' :: cs) :
    t.scan .kept cs = cs := by
  cases cs with
  | nil => rfl
  | cons d rest =>
      by_cases hd : d = '/'
      · subst hd
        rw [scan_code_marker, List.cons.injEq, List.cons.injEq] at h
        simp [h.2.2]
      · have h0 : ¬MarkerAt ('/' :: d :: rest) 0 := fun hm => hd (by simpa [MarkerAt] using hm.2)
        rw [scan_code_cons t h0, List.cons.injEq] at h
        exact scan_kept_of_scan_code t h.2

/-- With an idempotent character map, a second pass from the same region changes
nothing. A mapped character may complete a marker that the first pass did not see; the
code before it is already mapped and the text after it is kept by both passes. -/
theorem scan_scan (hm : ∀ c, t.mapChar (t.mapChar c) = t.mapChar c) (r : Region)
    (cs : List Char) :
    t.scan r (t.scan r cs) = t.scan r cs := by
  fun_induction t.scan r cs with
  | case1 r => cases r <;> rfl
  | case2 rest ih => rw [scan_code_marker, ih]
  | case3 c rest hsplit ih =>
      by_cases hmk : MarkerAt (t.mapChar c :: t.scan .code rest) 0
      · obtain ⟨hc, hnext⟩ := hmk
        simp only [List.getElem?_cons_zero, Option.some.injEq] at hc
        obtain ⟨r, hr⟩ : ∃ r, t.scan .code rest = '/' :: r := by
          cases hrest : t.scan .code rest with
          | nil => simp [hrest] at hnext
          | cons d r =>
              simp only [hrest, List.getElem?_cons_succ, List.getElem?_cons_zero,
                Option.some.injEq] at hnext
              exact ⟨r, by rw [hnext]⟩
        have hfix : t.scan .code ('/' :: r) = '/' :: r := by rw [← hr, ih]
        rw [hc, hr, scan_code_marker, scan_kept_of_scan_code_slash t hfix]
      · rw [scan_code_cons t hmk, hm, ih]
  | case4 c rest ih => rw [scan_kept_cons, ih]

theorem scanText_of_directive {cs : List Char} (h : ['#', '!'] <+: cs) :
    t.scanText cs = t.scan .kept cs := by
  simp [scanText, h]

theorem scanText_of_not_directive {cs : List Char} (h : ¬['#', '!'] <+: cs) :
    t.scanText cs = t.scan .code cs := by
  simp [scanText, h]

/-- A second pass over a translated text changes nothing: a directive the first pass kept
is kept by the second, and a directive the first pass made is one the second keeps as it
was fixed. -/
theorem scanText_scanText (hm : ∀ c, t.mapChar (t.mapChar c) = t.mapChar c)
    (cs : List Char) :
    t.scanText (t.scanText cs) = t.scanText cs := by
  by_cases hd : ['#', '!'] <+: cs
  · have hd' : ['#', '!'] <+: t.scan .kept cs := by
      obtain ⟨r, rfl⟩ := hd
      exact ⟨t.scan .kept r, by simp⟩
    rw [scanText_of_directive t hd, scanText_of_directive t hd', scan_scan t hm]
  · rw [scanText_of_not_directive t hd]
    by_cases ho : ['#', '!'] <+: t.scan .code cs
    · rw [scanText_of_directive t ho, scan_kept_of_scan_code t (scan_scan t hm .code cs)]
    · rw [scanText_of_not_directive t ho, scan_scan t hm]

end SymbolTable

/-- A text opens with a directive exactly when its first line does. -/
theorem directive_prefix_iff (cs : List Char) :
    ['#', '!'] <+: cs ↔
      ∃ l ls, Text.splitLines cs = l :: ls ∧ ['#', '!'] <+: l := by
  constructor
  · rintro ⟨r, rfl⟩
    cases hr : Text.splitLines r with
    | nil => exact ⟨['#', '!'], [], by simp [Text.splitLines, hr], List.prefix_refl _⟩
    | cons l ls =>
        exact ⟨'#' :: '!' :: l, ls, by simp [Text.splitLines, hr],
          List.prefix_append ['#', '!'] l⟩
  · rintro ⟨l, ls, hsplit, hl⟩
    have hflat : l ++ ls.flatten = cs := by
      rw [← List.flatten_cons, ← hsplit, Text.flatten_splitLines]
    exact hl.trans ⟨ls.flatten, hflat⟩

/-- The first line of a text is kept exactly when the text opens with a directive. -/
theorem startLine_ofText (s : String) :
    startLine (Document.ofText s).lines = if ['#', '!'] <+: s.toList then 1 else 0 := by
  have hlines : (Document.ofText s).lines = (Text.splitLines s.toList).map String.ofList :=
    rfl
  cases hsplit : Text.splitLines s.toList with
  | nil =>
      have hd : ¬['#', '!'] <+: s.toList := by
        rw [directive_prefix_iff, hsplit]
        simp
      rw [hlines, hsplit, if_neg hd]
      rfl
  | cons l ls =>
      have hd : ['#', '!'] <+: s.toList ↔ ['#', '!'] <+: l := by
        rw [directive_prefix_iff, hsplit]
        simp
      simp only [hlines, hsplit, List.map_cons, startLine, isDirective_iff,
        String.toList_ofList, hd]

/-- Translating a document and joining its lines is the one pass over its text: a kept
directive line is kept, and the pass reaches the next line in code. -/
theorem toText_translate_eq_scanText (t : SymbolTable) (s : String) :
    ((Document.ofText s).translate t).toText.toList = t.scanText s.toList := by
  have hshape := Text.lineShaped_splitLines s.toList
  have hlines : (Document.ofText s).lines = (Text.splitLines s.toList).map String.ofList :=
    rfl
  rw [Document.toList_toText, Document.translate_lines, SymbolTable.scanText,
    SymbolTable.translateLines, startLine_ofText]
  by_cases hd : ['#', '!'] <+: s.toList
  · obtain ⟨l, ls, hsplit, -⟩ := (directive_prefix_iff s.toList).1 hd
    rw [hsplit] at hshape
    rw [if_pos hd, if_pos hd, ← Text.flatten_splitLines s.toList, hsplit,
      t.scan_kept_flatten hshape, hlines, hsplit, t.scan_code_flatten hshape.tail]
    simp [Function.comp_def, SymbolTable.toList_translateLine]
  · rw [if_neg hd, if_neg hd, ← Text.flatten_splitLines s.toList,
      t.scan_code_flatten hshape, hlines]
    simp [Function.comp_def, SymbolTable.toList_translateLine]

/-- With an idempotent character map, translating the text read back from a translated
text gives that text again. -/
theorem translate_toText_retranslate {t : SymbolTable}
    (hm : ∀ c, t.mapChar (t.mapChar c) = t.mapChar c) (s : String) :
    ((Document.ofText ((Document.ofText s).translate t).toText).translate t).toText =
      ((Document.ofText s).translate t).toText := by
  apply String.toList_injective
  rw [toText_translate_eq_scanText, toText_translate_eq_scanText,
    t.scanText_scanText hm]

/-- Position by position: the translated text is as long as the text, holds the mapped
character at every code position of a translated line, and the character itself
everywhere else, which is in a kept line or after a marker. -/
theorem translate_toText_positions (t : SymbolTable) (s : String) :
    ((Document.ofText s).translate t).toText.length = s.length ∧
      ∀ p, (CodePosition s p →
          ((Document.ofText s).translate t).toText.toList[p]? =
            s.toList[p]?.map t.mapChar) ∧
        (¬CodePosition s p →
          ((Document.ofText s).translate t).toText.toList[p]? = s.toList[p]?) := by
  have hlen : ((Document.ofText s).translate t).toText.length = s.length := by
    rw [← String.length_toList, ← String.length_toList, Document.toList_toText,
      Document.translate_lines, ← Document.flatten_map_toList_ofText s, List.length_flatten,
      List.length_flatten, t.map_length_translateLines]
  refine ⟨hlen, fun p => ⟨?_, ?_⟩⟩
  · rintro ⟨k, j, l, hl, hj, rfl, hkept, hbefore⟩
    have hk : ¬k < startLine (Document.ofText s).lines :=
      mt (lt_startLine_iff_of_getElem? hl).1 hkept
    rw [Document.getElem?_translate_toText_lineOffset t hl hj,
      Document.getElem?_toList_lineOffset hl hj]
    simp [hk, hbefore]
  · intro hcode
    by_cases hp : p < s.length
    · obtain ⟨k, j, l, hl, hj, rfl⟩ := Document.exists_lineOffset_of_lt hp
      have hnot : ¬(¬k < startLine (Document.ofText s).lines ∧ BeforeMarker l.toList j) := by
        rintro ⟨hkept, hbefore⟩
        exact hcode ⟨k, j, l, hl, hj, rfl, mt (lt_startLine_iff_of_getElem? hl).2 hkept,
          hbefore⟩
      rw [Document.getElem?_translate_toText_lineOffset t hl hj,
        Document.getElem?_toList_lineOffset hl hj]
      simp only [if_neg hnot]
      simp
    · have hp' : ((Document.ofText s).translate t).toText.toList.length ≤ p := by
        rw [String.length_toList, hlen]
        omega
      rw [List.getElem?_eq_none hp', List.getElem?_eq_none (by rw [String.length_toList]; omega)]

end BrainfuckDialect
