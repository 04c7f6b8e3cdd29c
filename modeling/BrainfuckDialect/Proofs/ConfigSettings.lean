import BrainfuckDialect.Config.Parse
import BrainfuckDialect.Proofs.Lines

/-!
# Where the settings of a config come from

Every character a config sets is a character of one of its lines, and the lines of a
config hold no line feed: they are cut at line feeds and read without their
terminator. So no canonical character read from a config is a line feed.

The proofs follow the reading of a config from the outside in: a value, a setting, a
line, then the walk over the lines.
-/

namespace BrainfuckDialect

theorem Text.mem_of_mem_trim {cs : List Char} {c : Char} (h : c ∈ Text.trim cs) :
    c ∈ cs := by
  simp only [Text.trim, Text.trimEnd, Text.trimStart, List.mem_reverse] at h
  have h1 : c ∈ (cs.dropWhile Text.isBlank).reverse :=
    (List.dropWhile_sublist Text.isBlank).subset h
  rw [List.mem_reverse] at h1
  exact (List.dropWhile_sublist Text.isBlank).subset h1

theorem mem_of_unquote {q : Char} {value mid : List Char} {c : Char}
    (h : unquote q value = some mid) (hc : c ∈ mid) :
    c ∈ value := by
  cases value with
  | nil => simp [unquote] at h
  | cons d rest =>
      simp only [unquote] at h
      split at h
      · split at h
        · rename_i e mid' hrev
          split at h
          · cases h
            rw [List.mem_reverse] at hc
            have hin : c ∈ rest.reverse := by rw [hrev]; exact List.mem_cons_of_mem e hc
            exact List.mem_cons_of_mem d (List.mem_reverse.1 hin)
          · cases h
        · cases h
      · cases h

/-- The character of a one-character value is a character of the value. -/
theorem mem_of_readToken {value : List Char} {c : Char} (h : readToken value = some c) :
    c ∈ value := by
  have hinner : ∀ inner,
      ((unquote '"' value).orElse fun _ => unquote '\'' value).getD value = inner →
      ∀ x ∈ inner, x ∈ value := by
    intro inner hinner x hx
    cases hd : unquote '"' value with
    | some mid =>
        rw [hd, Option.orElse_some, Option.getD_some] at hinner
        exact mem_of_unquote hd (hinner ▸ hx)
    | none =>
        rw [hd, Option.orElse_none] at hinner
        cases hs : unquote '\'' value with
        | some mid =>
            rw [hs, Option.getD_some] at hinner
            exact mem_of_unquote hs (hinner ▸ hx)
        | none =>
            rw [hs, Option.getD_none] at hinner
            exact hinner ▸ hx
  simp only [readToken] at h
  generalize hin : ((unquote '"' value).orElse fun _ => unquote '\'' value).getD value =
    inner at h
  match inner, h with
  | [d], h =>
      have hdc : d = c := Option.some.inj h
      rw [← hdc]
      exact hinner [d] hin d List.mem_cons_self

/-- The character of a setting is a character of its line. -/
theorem mem_of_readSetting {indent : Nat} {line : List Char} {op : Opcode} {c : Char}
    (h : readSetting indent line = .setting op c) :
    c ∈ line := by
  simp only [readSetting] at h
  split at h
  · cases h
  · rename_i eq _
    split at h
    · cases h
    · split at h
      · cases h
      · rename_i d hd
        cases h
        exact List.mem_of_mem_drop (Text.mem_of_mem_trim (mem_of_readToken hd))

theorem mem_of_readConfigLine {raw : List Char} {op : Opcode} {c : Char}
    (h : readConfigLine raw = .setting op c) :
    c ∈ raw := by
  simp only [readConfigLine] at h
  split at h
  · cases h
  · split at h
    · cases h
    · exact Text.mem_of_mem_trim (mem_of_readSetting h)

/-- Every setting read from lines is read from one of them. -/
theorem mem_lines_of_mem_settings {inTokens : Bool} {n : Nat} {lines : List (List Char)}
    {op : Opcode} {c : Char}
    (h : (op, c) ∈ (scanConfigLines inTokens n lines).settings) :
    ∃ raw ∈ lines, c ∈ raw := by
  induction lines generalizing inTokens n with
  | nil => simp [scanConfigLines] at h
  | cons raw rest ih =>
      have hrest : ∀ b m, (op, c) ∈ (scanConfigLines b m rest).settings →
          ∃ r ∈ raw :: rest, c ∈ r := by
        intro b m hm
        obtain ⟨r, hr, hc⟩ := ih hm
        exact ⟨r, List.mem_cons_of_mem raw hr, hc⟩
      simp only [scanConfigLines] at h
      split at h
      · exact hrest _ _ h
      · exact hrest _ _ h
      · rename_i op' c' hread
        split at h
        · rcases List.mem_cons.1 h with he | hm
          · cases he
            exact ⟨raw, List.mem_cons_self, mem_of_readConfigLine hread⟩
          · exact hrest _ _ hm
        · exact hrest _ _ h
      · split at h
        · simp at h
        · exact hrest _ _ h

/-- A property of every canonical of a dialect and of every character set after it
holds of every canonical of the dialect with those settings applied. -/
theorem Dialect.canonical_withCanonicals_of (P : Char → Prop) {d : Dialect}
    {settings : List (Opcode × Char)} (hd : ∀ op, P (d.canonical op))
    (hs : ∀ s ∈ settings, P s.2) (op : Opcode) :
    P ((d.withCanonicals settings).canonical op) := by
  induction settings generalizing d with
  | nil => exact hd op
  | cons s settings ih =>
      have hstep : ∀ op', P ((d.withCanonical s.1 s.2).canonical op') := by
        intro op'
        rw [Dialect.canonical_withCanonical]
        split
        · exact hs s List.mem_cons_self
        · exact hd op'
      exact ih hstep (fun s' hs' => hs s' (List.mem_cons_of_mem s hs'))

/-- No canonical character of a dialect read from a config is a line feed. -/
theorem canonical_ne_newline_of_parseConfig {content : String} {d : Dialect}
    (h : parseConfig content = .ok d) (op : Opcode) :
    d.canonical op ≠ '\n' := by
  simp only [parseConfig] at h
  split at h
  · cases h
  · cases h
    have hletters : ∀ op', Dialect.letters.canonical op' ≠ '\n' := by
      intro op'
      rw [Dialect.letters_canonical]
      cases op' <;> decide
    refine Dialect.canonical_withCanonicals_of (fun c => c ≠ '\n') hletters ?_ op
    rintro ⟨op', c⟩ hs
    obtain ⟨raw, hraw, hc⟩ := mem_lines_of_mem_settings hs
    exact fun e => Text.newline_not_mem_contentLines hraw (e ▸ hc)

end BrainfuckDialect
