import BrainfuckDialect.Proofs.DialectTable
import BrainfuckDialect.Proofs.ConfigSettings

/-!
# What translation keeps

The two main facts about translating a document. Translation keeps the layout: the
same lines, each as long as before, the text as long as before, and only code
characters of translated lines rewritten; with a table that leaves line feeds alone,
which every configured table does, reading the translated text back gives the
translated lines again. And translation with a table that passed the strict checks is
idempotent, on characters, lines, documents and texts, even though a mapped character
can open a new comment marker, a new directive or a new line.
-/

namespace BrainfuckDialect

open SymbolTable

/-- The tables of a dialect read from a config leave line feeds alone: its canonicals
come from the config's lines, which hold no line feed, and no fixed synonym is one. -/
theorem keepsLineFeeds_of_parseConfig {content : String} {d : Dialect}
    (h : parseConfig content = .ok d) :
    d.table.KeepsLineFeeds ∧ ∀ t, d.strictTable = .ok t → t.KeepsLineFeeds := by
  have htable := Dialect.keepsLineFeeds_table (canonical_ne_newline_of_parseConfig h)
  refine ⟨htable, fun t ht => ?_⟩
  rw [Dialect.eq_table_of_strictTable ht]
  exact htable

/-- With a table that leaves line feeds alone, each line read back from a translated
text is as long as the line it came from. -/
theorem length_readBack_line {t : SymbolTable} (hk : t.KeepsLineFeeds) {s : String}
    {k : Nat} {l l' : String}
    (h' : (Document.ofText ((Document.ofText s).translate t).toText).lines[k]? = some l')
    (hl : (Document.ofText s).lines[k]? = some l) :
    l'.length = l.length := by
  rw [ofText_translate_toText hk, Document.translate_lines] at h'
  obtain ⟨-, hline⟩ := t.translateLines_lineByLine (Document.ofText s).lines
  by_cases hkept : k = 0 ∧ ['#', '!'] <+: l.toList
  · rw [(hline k l hl).1 hkept, Option.some.injEq] at h'
    rw [h']
  · obtain ⟨l'', hl'', hlen, -⟩ := (hline k l hl).2 hkept
    rw [hl'', Option.some.injEq] at h'
    rw [← h', hlen]

/-- Translation keeps the layout of a document. Line by line: as many lines, a leading
directive line kept, every other line as long as before with the characters before its
first comment marker mapped. On the text: as long as before, mapped exactly at the code
positions of translated lines. With a table that leaves line feeds alone, as every
table of a configured dialect does, the text reads back as the translated lines, each
as long as the line it came from. -/
theorem translation_keeps_layout (t : SymbolTable) :
    (∀ lines : List String,
      (t.translateLines lines).length = lines.length ∧
        ∀ i (l : String), lines[i]? = some l →
          (i = 0 ∧ ['#', '!'] <+: l.toList → (t.translateLines lines)[i]? = some l) ∧
          (¬(i = 0 ∧ ['#', '!'] <+: l.toList) →
            ∃ l', (t.translateLines lines)[i]? = some l' ∧ l'.length = l.length ∧
              ∀ j, l'.toList[j]? =
                l.toList[j]?.map
                  (fun c => if BeforeMarker l.toList j then t.mapChar c else c))) ∧
      (∀ s : String,
        ((Document.ofText s).translate t).toText.length = s.length ∧
          ∀ p, (CodePosition s p →
              ((Document.ofText s).translate t).toText.toList[p]? =
                s.toList[p]?.map t.mapChar) ∧
            (¬CodePosition s p →
              ((Document.ofText s).translate t).toText.toList[p]? = s.toList[p]?)) ∧
      (t.KeepsLineFeeds → ∀ s : String,
        Document.ofText ((Document.ofText s).translate t).toText =
            (Document.ofText s).translate t ∧
          (Document.ofText ((Document.ofText s).translate t).toText).size =
            (Document.ofText s).size ∧
          ∀ (k : Nat) (l l' : String),
            (Document.ofText ((Document.ofText s).translate t).toText).lines[k]? = some l' →
            (Document.ofText s).lines[k]? = some l → l'.length = l.length) ∧
      (∀ (content : String) (d : Dialect), parseConfig content = .ok d →
        d.table.KeepsLineFeeds ∧ ∀ t', d.strictTable = .ok t' → t'.KeepsLineFeeds) := by
  refine ⟨t.translateLines_lineByLine, translate_toText_positions t, ?_,
    fun _ _ h => keepsLineFeeds_of_parseConfig h⟩
  intro hk s
  have hback := ofText_translate_toText hk s
  refine ⟨hback, ?_, fun k l l' h' hl => length_readBack_line hk h' hl⟩
  rw [hback]
  exact t.length_translateLines _

/-- The table of the letters dialect leaves line feeds alone, so a text translated with
it reads back as its translated lines. -/
theorem translation_keeps_layout_letters :
    Dialect.letters.table.KeepsLineFeeds ∧
      (∀ s : String,
        Document.ofText ((Document.ofText s).translate Dialect.letters.table).toText =
          (Document.ofText s).translate Dialect.letters.table) ∧
      parseConfig "[tokens]\nplus = \"+\"\n" = .ok (Dialect.letters.withCanonical .plus '+') ∧
      (Dialect.letters.withCanonical .plus '+').table.KeepsLineFeeds :=
  have hk : Dialect.letters.table.KeepsLineFeeds :=
    Dialect.keepsLineFeeds_table (fun op => by cases op <;> decide)
  have hparse : parseConfig "[tokens]\nplus = \"+\"\n" =
      .ok (Dialect.letters.withCanonical .plus '+') := rfl
  ⟨hk, fun s => ((translation_keeps_layout _).2.2.1 hk s).1, hparse,
    ((translation_keeps_layout Dialect.letters.table).2.2.2 _ _ hparse).1⟩

/-- Translation with a table that passed the strict build is idempotent: on characters,
lines, documents, and texts read back from their translation. -/
theorem strict_translation_idempotent {gs : List SynonymGroup} {t : SymbolTable}
    (h : buildStrict gs = .ok t) :
    (∀ c, t.mapChar (t.mapChar c) = t.mapChar c) ∧
      (∀ line, t.translateLine (t.translateLine line) = t.translateLine line) ∧
      (∀ lines, t.translateLines (t.translateLines lines) = t.translateLines lines) ∧
      (∀ s : String,
        ((Document.ofText ((Document.ofText s).translate t).toText).translate t).toText =
          ((Document.ofText s).translate t).toText) := by
  have hm := mapChar_mapChar_of_buildStrict h
  exact ⟨hm, t.translateLine_translateLine hm, t.translateLines_translateLines hm,
    translate_toText_retranslate hm⟩

/-- Groups whose canonicals are `/`, `#`, `!` and the line feed pass the strict build,
and translating with their table is idempotent. -/
theorem strict_translation_idempotent_awkward_targets :
    buildStrict [⟨'/', ['x']⟩, ⟨'#', ['a']⟩, ⟨'!', ['b']⟩, ⟨'\n', ['y']⟩] =
        .ok (build [⟨'/', ['x']⟩, ⟨'#', ['a']⟩, ⟨'!', ['b']⟩, ⟨'\n', ['y']⟩]) ∧
      ∀ s : String,
        ((Document.ofText ((Document.ofText s).translate
            (build [⟨'/', ['x']⟩, ⟨'#', ['a']⟩, ⟨'!', ['b']⟩, ⟨'\n', ['y']⟩])).toText).translate
            (build [⟨'/', ['x']⟩, ⟨'#', ['a']⟩, ⟨'!', ['b']⟩, ⟨'\n', ['y']⟩])).toText =
          ((Document.ofText s).translate
            (build [⟨'/', ['x']⟩, ⟨'#', ['a']⟩, ⟨'!', ['b']⟩, ⟨'\n', ['y']⟩])).toText :=
  have h : buildStrict [⟨'/', ['x']⟩, ⟨'#', ['a']⟩, ⟨'!', ['b']⟩, ⟨'\n', ['y']⟩] =
      .ok (build [⟨'/', ['x']⟩, ⟨'#', ['a']⟩, ⟨'!', ['b']⟩, ⟨'\n', ['y']⟩]) :=
    insertAllStrict_of_consistent ((consistent_empty_iff _).2 (by decide))
  ⟨h, (strict_translation_idempotent h).2.2.2⟩

end BrainfuckDialect
