import Mathlib
import BrainfuckDialect.Proofs.StrictDialect

/-!
# Translating a translation

Translating with one table and then with a second is translating with the second alone
when the first table keeps what the second reads: it maps a character to a slash exactly
when the character is a slash, so every comment marker stays where it was; it makes no
directive line out of a line that is not one; and the second table maps each character
and its image under the first alike.

A dialect whose canonicals are among their own opcode's fixed synonyms (the classic,
letters and alternate-letters columns, and any mix of them) has such a table: it moves a
character only within its synonym column, no column holds a slash, and no canonical can be
both `#` and `!`. Every strict table sends a whole column to one character, so it reads the
first translation as it reads the text.
-/

namespace BrainfuckDialect

/-- No fixed synonym is a slash. -/
theorem Opcode.slash_not_mem_synonyms (op : Opcode) : '/' ∉ op.synonyms := by
  cases op <;> decide

/-! ## Two tables in a row -/

namespace SymbolTable

variable (t : SymbolTable)

theorem getElem?_translateChars_of_beforeMarker {cs : List Char} {j : Nat}
    (h : BeforeMarker cs j) :
    (t.translateChars cs)[j]? = cs[j]?.map t.mapChar := by
  rw [getElem?_translateChars]
  cases cs[j]? with
  | none => rfl
  | some c => simp [h]

/-- A character that only itself maps to stays where it was, and no new one appears. -/
theorem getElem?_translateChars_eq_some_iff {m : Char} (hm : ∀ c, t.mapChar c = m ↔ c = m)
    (cs : List Char) (j : Nat) :
    (t.translateChars cs)[j]? = some m ↔ cs[j]? = some m := by
  rw [getElem?_translateChars]
  cases cs[j]? with
  | none => simp
  | some c =>
      by_cases hb : BeforeMarker cs j
      · simp [hb, hm c]
      · simp [hb]

/-- A table that maps exactly the slash to a slash keeps every comment marker. -/
theorem markerAt_translateChars_iff (hs : ∀ c, t.mapChar c = '/' ↔ c = '/')
    (cs : List Char) (k : Nat) :
    MarkerAt (t.translateChars cs) k ↔ MarkerAt cs k := by
  simp only [MarkerAt, getElem?_translateChars_eq_some_iff t hs]

/-- A line translated by a table that keeps slashes opens with a directive only when the
table maps two characters of the line to `#` and `!`: neither of them is a slash, so both
lie before any marker and are mapped. -/
theorem exists_mapChar_of_isDirective (hs : ∀ c, t.mapChar c = '/' ↔ c = '/')
    {line : String} (h : isDirective (t.translateLine line) = true) :
    ∃ a b, t.mapChar a = '#' ∧ t.mapChar b = '!' := by
  rw [isDirective_iff, toList_translateLine] at h
  obtain ⟨rest, hrest⟩ := h
  have h0 : (t.translateChars line.toList)[0]? = some '#' := by rw [← hrest]; rfl
  have h1 : (t.translateChars line.toList)[1]? = some '!' := by rw [← hrest]; rfl
  have hslash : ∀ j, (t.translateChars line.toList)[j]? ≠ some '/' →
      ¬MarkerAt line.toList j := by
    intro j hj hmk
    exact hj ((getElem?_translateChars_eq_some_iff t hs _ j).2 hmk.1)
  have hbefore : BeforeMarker line.toList 1 := by
    intro k hk
    rcases Nat.le_one_iff_eq_zero_or_eq_one.1 hk with rfl | rfl
    · exact hslash 0 (by rw [h0]; decide)
    · exact hslash 1 (by rw [h1]; decide)
  have hbefore0 : BeforeMarker line.toList 0 := fun k hk => hbefore k (Nat.le_succ_of_le hk)
  rw [getElem?_translateChars_of_beforeMarker t hbefore0] at h0
  rw [getElem?_translateChars_of_beforeMarker t hbefore] at h1
  obtain ⟨a, -, ha⟩ := Option.map_eq_some_iff.1 h0
  obtain ⟨b, -, hb⟩ := Option.map_eq_some_iff.1 h1
  exact ⟨a, b, ha, hb⟩

end SymbolTable

open SymbolTable

section Composition

variable {t₁ t₂ : SymbolTable}

/-- Translating a translated line with a second table is translating the line with the
second table alone, when the first keeps slashes and the second maps every character and
its image under the first alike. Keeping slashes, the first table makes no marker at the
start of a line where there was none, so the two passes agree on where code ends. -/
theorem translateChars_translateChars_of_comp (hs : ∀ c, t₁.mapChar c = '/' ↔ c = '/')
    (hc : ∀ c, t₂.mapChar (t₁.mapChar c) = t₂.mapChar c) (cs : List Char) :
    t₂.translateChars (t₁.translateChars cs) = t₂.translateChars cs := by
  induction cs using splitComment.induct with
  | case1 => rfl
  | case2 rest => rw [translateChars_marker]
  | case3 c rest h ih =>
      have h0 := not_markerAt_zero h
      have h0' : ¬MarkerAt (t₁.mapChar c :: t₁.translateChars rest) 0 := by
        rw [← translateChars_cons t₁ h0, markerAt_translateChars_iff t₁ hs]
        exact h0
      rw [translateChars_cons t₁ h0, translateChars_cons t₂ h0', translateChars_cons t₂ h0, hc,
        ih]

theorem translateLine_translateLine_of_comp (hs : ∀ c, t₁.mapChar c = '/' ↔ c = '/')
    (hc : ∀ c, t₂.mapChar (t₁.mapChar c) = t₂.mapChar c) (line : String) :
    t₂.translateLine (t₁.translateLine line) = t₂.translateLine line := by
  rw [translateLine, toList_translateLine, translateChars_translateChars_of_comp hs hc]
  rfl

/-- A table that makes no directive line out of another line keeps the line translation
starts at. -/
theorem startLine_translateLines_of
    (hd : ∀ line, isDirective (t₁.translateLine line) = true → isDirective line = true)
    (lines : List String) :
    startLine (t₁.translateLines lines) = startLine lines := by
  cases lines with
  | nil => rfl
  | cons l ls =>
      by_cases hl : isDirective l = true
      · simp [translateLines, startLine, hl]
      · have hl' : isDirective (t₁.translateLine l) = false := by
          cases hdir : isDirective (t₁.translateLine l) with
          | false => rfl
          | true => exact absurd (hd l hdir) hl
        simp [translateLines, startLine, hl, hl']

/-- The same law on the lines of a document, when the first table makes no directive line:
a kept directive line is kept by both passes, and any other line is translated by both. -/
theorem translateLines_translateLines_of_comp (hs : ∀ c, t₁.mapChar c = '/' ↔ c = '/')
    (hc : ∀ c, t₂.mapChar (t₁.mapChar c) = t₂.mapChar c)
    (hd : ∀ line, isDirective (t₁.translateLine line) = true → isDirective line = true)
    (lines : List String) :
    t₂.translateLines (t₁.translateLines lines) = t₂.translateLines lines := by
  apply List.ext_getElem?
  intro i
  rw [getElem?_translateLines t₂ (t₁.translateLines lines), getElem?_translateLines t₁ lines,
    getElem?_translateLines t₂ lines, Option.map_map, startLine_translateLines_of hd]
  congr 1
  funext l
  by_cases hi : i < startLine lines
  · simp [hi]
  · simp [hi, translateLine_translateLine_of_comp hs hc]

end Composition

/-! ## Dialects that read their own synonyms -/

namespace Dialect

/-- A strict table maps every character of an opcode's synonym column to the opcode's
canonical. -/
theorem mapChar_of_strictTable_of_mem {d : Dialect} {t : SymbolTable}
    (h : d.strictTable = .ok t) {op : Opcode} {c : Char} (hc : c ∈ op.synonyms) :
    t.mapChar c = d.canonical op := by
  have hget : t.get c = some (d.canonical op) :=
    (get_of_strictTable h c _).2 ⟨op, List.mem_cons_of_mem _ hc, rfl⟩
  rw [mapChar_eq, hget, Option.getD_some]

section SynonymCanonicals

variable {d : Dialect} (hsyn : ∀ op, d.canonical op ∈ op.synonyms)
include hsyn

theorem mem_members_iff_of_synonyms {op : Opcode} {c : Char} :
    c ∈ (d.group op).members ↔ c ∈ op.synonyms := by
  constructor
  · intro hc
    rcases List.mem_cons.1 hc with rfl | hc
    · exact hsyn op
    · exact hc
  · exact List.mem_cons_of_mem _

/-- A dialect that reads its own synonyms passes the strict checks, with its own table. -/
theorem strictTable_of_synonyms : d.strictTable = .ok d.table := by
  have hdisjoint : ∀ p q c, c ∈ (d.group p).members → c ∈ (d.group q).members → p = q := by
    intro p q c hp hq
    exact Opcode.eq_of_mem_synonyms ((mem_members_iff_of_synonyms hsyn).1 hp)
      ((mem_members_iff_of_synonyms hsyn).1 hq)
  obtain ⟨t, ht⟩ := strictTable_isOk_iff_disjoint.2 hdisjoint
  rw [ht, eq_table_of_strictTable ht]

theorem mapChar_table_of_mem {op : Opcode} {c : Char} (hc : c ∈ op.synonyms) :
    d.table.mapChar c = d.canonical op :=
  mapChar_of_strictTable_of_mem (strictTable_of_synonyms hsyn) hc

theorem mapChar_table_of_forall_not_mem {c : Char} (hc : ∀ op : Opcode, c ∉ op.synonyms) :
    d.table.mapChar c = c := by
  cases hget : d.table.get c with
  | none => rw [mapChar_eq, hget, Option.getD_none]
  | some x =>
      obtain ⟨op, hop, -⟩ := (get_of_strictTable (strictTable_of_synonyms hsyn) c x).1 hget
      exact absurd ((mem_members_iff_of_synonyms hsyn).1 hop) (hc op)

/-- What the table does to a character: a character of a synonym column goes to the
column's canonical, and any other character stays as it is. -/
theorem mapChar_table_cases (c : Char) :
    (∃ op, c ∈ op.synonyms ∧ d.table.mapChar c = d.canonical op) ∨
      ((∀ op : Opcode, c ∉ op.synonyms) ∧ d.table.mapChar c = c) := by
  by_cases hc : ∃ op : Opcode, c ∈ op.synonyms
  · obtain ⟨op, hop⟩ := hc
    exact Or.inl ⟨op, hop, mapChar_table_of_mem hsyn hop⟩
  · have hnone := not_exists.1 hc
    exact Or.inr ⟨hnone, mapChar_table_of_forall_not_mem hsyn hnone⟩

/-- A character of a synonym column is the image of a character only when it is the
column's canonical. -/
theorem canonical_eq_of_mapChar_table {op : Opcode} {x c : Char} (hx : x ∈ op.synonyms)
    (h : d.table.mapChar c = x) :
    d.canonical op = x := by
  rcases mapChar_table_cases hsyn c with ⟨op', -, hmap⟩ | ⟨hnone, hmap⟩
  · rw [hmap] at h
    have hsame : op' = op := Opcode.eq_of_mem_synonyms (h ▸ hsyn op') hx
    rw [← hsame, h]
  · rw [hmap] at h
    exact absurd (h ▸ hx) (hnone op)

theorem mapChar_table_eq_slash_iff (c : Char) : d.table.mapChar c = '/' ↔ c = '/' := by
  rcases mapChar_table_cases hsyn c with ⟨op, hop, hmap⟩ | ⟨-, hmap⟩
  · rw [hmap]
    constructor
    · intro h
      exact absurd (h ▸ hsyn op) (Opcode.slash_not_mem_synonyms op)
    · rintro rfl
      exact absurd hop (Opcode.slash_not_mem_synonyms op)
  · rw [hmap]

/-- The table of a dialect that reads its own synonyms never makes a directive line: `#`
and `!` are both in the breakpoint column, whose characters all map to its one
canonical. -/
theorem isDirective_translateLine_table (line : String) :
    isDirective (d.table.translateLine line) = false := by
  cases hdir : isDirective (d.table.translateLine line) with
  | false => rfl
  | true =>
      obtain ⟨a, b, ha, hb⟩ :=
        exists_mapChar_of_isDirective d.table (mapChar_table_eq_slash_iff hsyn) hdir
      have hhash : d.canonical .breakpoint = '#' :=
        canonical_eq_of_mapChar_table hsyn (by decide) ha
      have hbang : d.canonical .breakpoint = '!' :=
        canonical_eq_of_mapChar_table hsyn (by decide) hb
      exact absurd (hhash.symm.trans hbang) (by decide)

theorem keepsLineFeeds_table_of_synonyms : d.table.KeepsLineFeeds :=
  keepsLineFeeds_table fun op h => newline_not_mem_synonyms op (h ▸ hsyn op)

end SynonymCanonicals

/-- A strict table reads the image of a character under a dialect that reads its own
synonyms as it reads the character. -/
theorem mapChar_mapChar_table {d₁ d₂ : Dialect} {t₂ : SymbolTable}
    (hsyn : ∀ op, d₁.canonical op ∈ op.synonyms) (h₂ : d₂.strictTable = .ok t₂) (c : Char) :
    t₂.mapChar (d₁.table.mapChar c) = t₂.mapChar c := by
  rcases mapChar_table_cases hsyn c with ⟨op, hop, hmap⟩ | ⟨-, hmap⟩
  · rw [hmap, mapChar_of_strictTable_of_mem h₂ (hsyn op), mapChar_of_strictTable_of_mem h₂ hop]
  · rw [hmap]

/-- The classic punctuation dialect `+ - < > . , [ ] #`: each opcode's first fixed synonym
as its canonical. -/
def classic : Dialect :=
  ⟨'+', '-', '<', '>', '.', ',', '[', ']', '#'⟩

theorem classic_canonical_mem_synonyms (op : Opcode) : classic.canonical op ∈ op.synonyms := by
  cases op <;> decide

end Dialect

open Dialect

/-- Translating with a dialect that reads its own synonyms and then with a strict table is
translating with the strict table alone, on lines, on documents, and on the text read back
from the first translation, which keeps line feeds and so reads back as its lines. -/
theorem translate_after_synonym_dialect {d₁ d₂ : Dialect} {t₂ : SymbolTable}
    (hsyn : ∀ op, d₁.canonical op ∈ op.synonyms) (h₂ : d₂.strictTable = .ok t₂) :
    (∀ line, t₂.translateLine (d₁.table.translateLine line) = t₂.translateLine line) ∧
    (∀ lines, t₂.translateLines (d₁.table.translateLines lines) = t₂.translateLines lines) ∧
    ∀ s : String,
      ((Document.ofText ((Document.ofText s).translate d₁.table).toText).translate
        t₂).toText = ((Document.ofText s).translate t₂).toText := by
  have hs := mapChar_table_eq_slash_iff hsyn
  have hc := mapChar_mapChar_table hsyn h₂
  have hd : ∀ line, isDirective (d₁.table.translateLine line) = true →
      isDirective line = true := fun line h => by
    rw [isDirective_translateLine_table hsyn] at h
    cases h
  have hlines := translateLines_translateLines_of_comp hs hc hd
  refine ⟨translateLine_translateLine_of_comp hs hc, hlines, fun s => ?_⟩
  rw [ofText_translate_toText (keepsLineFeeds_table_of_synonyms hsyn)]
  simp only [Document.translate, hlines]

/-- Translating with a dialect whose canonicals are among their own opcode's synonyms and
then with a strict table is translating with the strict table alone: on lines, on
documents, and on texts read back from the first translation. In particular translating a
text that the letters dialect leaves unchanged into classic punctuation and back into
letters gives the text again. -/
theorem translate_through_synonym_dialect :
    (∀ (d₁ d₂ : Dialect) (t₂ : SymbolTable), (∀ op, d₁.canonical op ∈ op.synonyms) →
      d₂.strictTable = .ok t₂ →
      (∀ line, t₂.translateLine (d₁.table.translateLine line) = t₂.translateLine line) ∧
      (∀ lines, t₂.translateLines (d₁.table.translateLines lines) = t₂.translateLines lines) ∧
      ∀ s : String,
        ((Document.ofText ((Document.ofText s).translate d₁.table).toText).translate
          t₂).toText = ((Document.ofText s).translate t₂).toText) ∧
    ∀ s : String, ((Document.ofText s).translate letters.table).toText = s →
      ((Document.ofText ((Document.ofText s).translate classic.table).toText).translate
        letters.table).toText = s := by
  refine ⟨fun _ _ _ hsyn h₂ => translate_after_synonym_dialect hsyn h₂, fun s hnormal => ?_⟩
  rw [(translate_after_synonym_dialect classic_canonical_mem_synonyms letters_strictTable).2.2 s,
    hnormal]

/-- The classic punctuation dialect reads its own synonyms and the letters dialect has a
strict table, so a line of letters translated into classic punctuation and back into
letters is the line translated into letters; and a text already in letters comes back
unchanged from the round trip through classic punctuation. -/
theorem translate_through_synonym_dialect_classic :
    (∀ op, classic.canonical op ∈ op.synonyms) ∧ letters.strictTable = .ok letters.table ∧
      letters.table.translateLine (classic.table.translateLine "ouieoay. // copy\n") =
        letters.table.translateLine "ouieoay. // copy\n" ∧
      ((Document.ofText "ouieoay. // copy\n").translate letters.table).toText =
        "ouieoay. // copy\n" ∧
      ((Document.ofText ((Document.ofText "ouieoay. // copy\n").translate
          classic.table).toText).translate letters.table).toText = "ouieoay. // copy\n" :=
  have hnormal : ((Document.ofText "ouieoay. // copy\n").translate letters.table).toText =
      "ouieoay. // copy\n" := by
    decide
  ⟨classic_canonical_mem_synonyms, letters_strictTable,
    (translate_through_synonym_dialect.1 classic letters letters.table
      classic_canonical_mem_synonyms letters_strictTable).1 _, hnormal,
    translate_through_synonym_dialect.2 _ hnormal⟩

end BrainfuckDialect
