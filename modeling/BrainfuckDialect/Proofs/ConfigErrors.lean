import Mathlib
import BrainfuckDialect.Proofs.ConfigGrammar
import BrainfuckDialect.Cli.Command

/-!
# Where a refused config is refused

A config that breaks the grammar of the tokens section is refused at the first line of a
tokens section that breaks it. The error names that line by its number and text, and
its column points into the line as written: at the first non-blank character when the
line has no `=` or its key names no opcode, and at the value when the value is not one
character. The reading places the problem at a byte offset of the line; that offset
always falls between two characters, within the line, so counting the characters before
it never cuts one. The column counts those characters, so it is at most one past the
line's end, and the caret printed under the echoed line stands under that character.

Placing the column takes a little theory of trimming: a line is its leading blanks, its
trimmed text and its trailing blanks, and the trimmed text begins and ends with
characters that are not blank.
-/

namespace BrainfuckDialect

/-! ## Trimming -/

namespace Text

/-- A text is its text without trailing blanks, then those blanks. -/
theorem eq_trimEnd_append (cs : List Char) :
    cs = trimEnd cs ++ (cs.reverse.takeWhile isBlank).reverse := by
  calc cs = cs.reverse.reverse := (List.reverse_reverse cs).symm
    _ = (cs.reverse.takeWhile isBlank ++ cs.reverse.dropWhile isBlank).reverse := by
        rw [List.takeWhile_append_dropWhile]
    _ = trimEnd cs ++ (cs.reverse.takeWhile isBlank).reverse := by
        rw [List.reverse_append, trimEnd]

/-- A text is its leading blanks, its trimmed text and its trailing blanks. -/
theorem eq_blanks_trim_blanks (cs : List Char) :
    ∃ post, cs = cs.takeWhile isBlank ++ trim cs ++ post ∧ ∀ c ∈ post, isBlank c = true := by
  refine ⟨((trimStart cs).reverse.takeWhile isBlank).reverse, ?_, ?_⟩
  · calc cs = cs.takeWhile isBlank ++ trimStart cs := List.takeWhile_append_dropWhile.symm
      _ = _ := by rw [List.append_assoc, trim, ← eq_trimEnd_append]
  · intro c hc
    exact List.mem_takeWhile_imp (List.mem_reverse.1 hc)

/-- The trimmed text begins where the text without its leading blanks does, so it does not
begin with a blank. -/
theorem isBlank_eq_false_of_head?_trim {cs : List Char} {x : Char}
    (h : (trim cs).head? = some x) :
    isBlank x = false := by
  have hstart : (cs.dropWhile isBlank).head? = some x := by
    rw [trim] at h
    rw [← trimStart, eq_trimEnd_append (trimStart cs), List.head?_append, h]
    rfl
  have hfirst := List.head?_dropWhile_not isBlank cs
  rw [hstart] at hfirst
  exact hfirst

theorem isBlank_eq_false_of_getLast?_trim {cs : List Char} {x : Char}
    (h : (trim cs).getLast? = some x) :
    isBlank x = false := by
  rw [trim, trimEnd, List.getLast?_reverse] at h
  have hlast := List.head?_dropWhile_not isBlank (trimStart cs).reverse
  rw [h] at hlast
  exact hlast

theorem trim_blanks_append {pre cs : List Char} (h : ∀ c ∈ pre, isBlank c = true) :
    trim (pre ++ cs) = trim cs := by
  rw [trim, trimStart, List.dropWhile_append_of_pos h]
  rfl

theorem trimEnd_append_blanks {cs post : List Char} (h : ∀ c ∈ post, isBlank c = true) :
    trimEnd (cs ++ post) = trimEnd cs := by
  have hrev : ∀ c ∈ post.reverse, isBlank c = true := fun c hc => h c (List.mem_reverse.1 hc)
  rw [trimEnd, List.reverse_append, List.dropWhile_append_of_pos hrev]
  rfl

/-- Blanks after a text leave its trimmed text as it is, also when the text is all blanks
and so is the whole. -/
theorem trim_append_blanks {cs post : List Char} (h : ∀ c ∈ post, isBlank c = true) :
    trim (cs ++ post) = trim cs := by
  rw [trim, trim, trimStart, trimStart, List.dropWhile_append]
  split
  · rename_i hnil
    rw [List.isEmpty_iff] at hnil
    rw [hnil, List.dropWhile_eq_nil_iff.2 h]
  · exact trimEnd_append_blanks h

theorem trim_eq_nil_iff {cs : List Char} : trim cs = [] ↔ ∀ c ∈ cs, isBlank c = true := by
  constructor
  · intro h c hc
    obtain ⟨post, hcs, hpost⟩ := eq_blanks_trim_blanks cs
    rw [h, List.append_nil] at hcs
    rw [hcs, List.mem_append] at hc
    rcases hc with hc | hc
    · exact List.mem_takeWhile_imp hc
    · exact hpost c hc
  · intro h
    rw [trim, trimStart, List.dropWhile_eq_nil_iff.2 h]
    rfl

theorem leadingBlanks_eq_zero {cs : List Char}
    (h : ∀ x, cs.head? = some x → isBlank x = false) :
    leadingBlanks cs = 0 := by
  cases cs with
  | nil => rfl
  | cons x xs => simp [leadingBlanks, h x rfl]

theorem leadingBlanks_append {cs more : List Char} (h : ∃ x ∈ cs, isBlank x = false) :
    leadingBlanks (cs ++ more) = leadingBlanks cs := by
  induction cs with
  | nil => simp at h
  | cons c cs ih =>
      by_cases hc : isBlank c = true
      · have hrest : ∃ x ∈ cs, isBlank x = false := by
          obtain ⟨x, hx, hb⟩ := h
          rcases List.mem_cons.1 hx with rfl | hx
          · rw [hc] at hb
            cases hb
          · exact ⟨x, hx, hb⟩
        have hlen := ih hrest
        simp only [leadingBlanks] at hlen
        simp [leadingBlanks, hc, hlen]
      · simp [leadingBlanks, hc]

/-- Blanks after a text that ends with a non-blank character do not move its first
non-blank character, and a text of blanks has none. -/
theorem leadingBlanks_append_blanks {cs post : List Char}
    (hpost : ∀ c ∈ post, isBlank c = true)
    (hlast : ∀ x, cs.getLast? = some x → isBlank x = false) :
    (if trim (cs ++ post) = [] then 0 else leadingBlanks (cs ++ post)) = leadingBlanks cs := by
  rw [trim_append_blanks hpost]
  cases hcs : cs.getLast? with
  | none =>
      rw [List.getLast?_eq_none_iff] at hcs
      subst hcs
      rfl
  | some x =>
      have hx := hlast x hcs
      have hmem : x ∈ cs := List.mem_of_getLast? hcs
      have hne : trim cs ≠ [] := by
        intro hnil
        have hblank := trim_eq_nil_iff.1 hnil x hmem
        rw [hx] at hblank
        cases hblank
      rw [if_neg hne, leadingBlanks_append ⟨x, hmem, hx⟩]

theorem leadingBlanks_le_length (cs : List Char) : leadingBlanks cs ≤ cs.length := by
  have := leadingBlanks_add_trimStart cs
  omega

end Text

/-! ## The column of a refused line -/

/-- Where the problem of a refused line lies, as a 1-based column of the line as
written, by cause: a line without `=`, or whose key (cut at the first `=`) names no
opcode, at its first non-blank character; a value that is not one character at the first
non-blank character after the `=`, or just after the `=` when only blanks follow. -/
def ProblemColumn (raw : List Char) (problem : ConfigProblem) (column : Nat) : Prop :=
  ('=' ∉ raw ∧ problem = .missingEquals ∧ column = Text.leadingBlanks raw + 1) ∨
  (∃ key value, raw = key ++ '=' :: value ∧ '=' ∉ key ∧
    (∀ op : Opcode, Text.trim key ≠ op.key.toList) ∧
    problem = .unknownOpcode (String.ofList (Text.trim key)) ∧
    column = Text.leadingBlanks raw + 1) ∨
  (∃ key value op, raw = key ++ '=' :: value ∧ '=' ∉ key ∧
    Text.trim key = op.key.toList ∧ (∀ c, ¬TokenValue (Text.trim value) c) ∧
    problem = .notOneCharacter op ∧
    column = key.length + 1 + (if Text.trim value = [] then 0 else Text.leadingBlanks value) + 1)

/-- The column of a problem lies on the line, or just past its end. -/
theorem ProblemColumn.column_le {raw : List Char} {problem : ConfigProblem} {column : Nat}
    (h : ProblemColumn raw problem column) :
    1 ≤ column ∧ column ≤ raw.length + 1 := by
  have hlead := Text.leadingBlanks_le_length raw
  rcases h with ⟨-, -, rfl⟩ | ⟨-, -, -, -, -, -, rfl⟩ | ⟨key, value, -, rfl, -, -, -, -, rfl⟩
  · omega
  · omega
  · have hvalue := Text.leadingBlanks_le_length value
    split <;> simp only [List.length_append, List.length_cons] <;> omega

theorem Opcode.key_toList_of_ofKey? {k : List Char} {op : Opcode}
    (h : Opcode.ofKey? (String.ofList k) = some op) :
    k = op.key.toList := by
  rw [Opcode.ofKey?_eq_some_iff.1 h, String.toList_ofList]

/-- A refused line is refused at the byte offset that ends a prefix of the line, and the
column just after that prefix is the one the cause gives. -/
theorem problemColumn_of_readConfigLine {raw : List Char} {offset : Nat}
    {problem : ConfigProblem} (h : readConfigLine raw = .invalid offset problem) :
    ∃ pre rest, raw = pre ++ rest ∧ offset = Text.byteLength pre ∧
      ProblemColumn raw problem (pre.length + 1) := by
  have hm := (readConfigLine_eq_invalid h).1
  rw [readConfigLine_of_mustSet hm, Text.leadingBlankBytes_eq_byteLength] at h
  obtain ⟨post, hraw, hpost⟩ := Text.eq_blanks_trim_blanks raw
  have hpre : ∀ c ∈ raw.takeWhile Text.isBlank, Text.isBlank c = true :=
    fun _ => List.mem_takeWhile_imp
  have hnoEq : ∀ {cs : List Char}, (∀ c ∈ cs, Text.isBlank c = true) → '=' ∉ cs := by
    intro cs hb hmem
    have hblank := hb _ hmem
    revert hblank
    decide
  rcases not_mem_or_eq_append_cons (Text.trim raw) with hline | ⟨key, value, hline, hkey⟩
  · rw [readSetting_of_not_mem hline] at h
    injection h with hoff hprob
    refine ⟨raw.takeWhile Text.isBlank, Text.trim raw ++ post, ?_, hoff.symm,
      Or.inl ⟨?_, hprob.symm, rfl⟩⟩
    · rw [← List.append_assoc]
      exact hraw
    · rw [hraw]
      simp only [List.mem_append, not_or]
      exact ⟨⟨hnoEq hpre, hline⟩, hnoEq hpost⟩
  · rw [hline] at h
    have hsplit : raw = (raw.takeWhile Text.isBlank ++ key) ++ '=' :: (value ++ post) :=
      calc raw = raw.takeWhile Text.isBlank ++ Text.trim raw ++ post := hraw
        _ = _ := by
          rw [hline]
          simp
    have hkey' : '=' ∉ raw.takeWhile Text.isBlank ++ key := by
      simp only [List.mem_append, not_or]
      exact ⟨hnoEq hpre, hkey⟩
    have htrimKey : Text.trim (raw.takeWhile Text.isBlank ++ key) = Text.trim key :=
      Text.trim_blanks_append hpre
    have htrimValue : Text.trim (value ++ post) = Text.trim value :=
      Text.trim_append_blanks hpost
    rcases readSetting_append_cons_cases (Text.byteLength (raw.takeWhile Text.isBlank)) hkey with
      ⟨hop, hr⟩ | ⟨op, hop, htok, hr⟩ | ⟨op, c, -, -, hr⟩
    · have hkey0 : key.takeWhile Text.isBlank = [] := by
        apply List.eq_nil_of_length_eq_zero
        apply Text.leadingBlanks_eq_zero
        intro x hx
        apply @Text.isBlank_eq_false_of_head?_trim raw
        rw [hline, List.head?_append, hx]
        rfl
      rw [hr, Text.leadingBlankBytes_eq_byteLength, hkey0] at h
      injection h with hoff hprob
      refine ⟨raw.takeWhile Text.isBlank, Text.trim raw ++ post, ?_, hoff.symm,
        Or.inr (Or.inl ⟨_, _, hsplit, hkey', fun op hk => ?_, ?_, rfl⟩)⟩
      · rw [← List.append_assoc]
        exact hraw
      · rw [htrimKey] at hk
        rw [hk, String.ofList_toList, Opcode.ofKey?_key] at hop
        cases hop
      · rw [htrimKey, hprob]
    · rw [hr, Text.leadingBlankBytes_eq_byteLength] at h
      injection h with hoff hprob
      have hvalueCol := Text.leadingBlanks_append_blanks hpost fun x hv => by
        apply @Text.isBlank_eq_false_of_getLast?_trim raw
        rw [hline, List.getLast?_append, List.getLast?_cons, hv]
        rfl
      refine ⟨(raw.takeWhile Text.isBlank ++ key) ++ '=' :: value.takeWhile Text.isBlank,
        value.dropWhile Text.isBlank ++ post, ?_, ?_,
        Or.inr (Or.inr ⟨_, _, op, hsplit, hkey', ?_, ?_, hprob.symm, ?_⟩)⟩
      · have hvalue : value ++ post =
            value.takeWhile Text.isBlank ++ (value.dropWhile Text.isBlank ++ post) := by
          rw [← List.append_assoc, List.takeWhile_append_dropWhile]
        calc raw = (raw.takeWhile Text.isBlank ++ key) ++ '=' :: (value ++ post) := hsplit
          _ = _ := by
            rw [hvalue]
            simp
      · have hone : '='.utf8Size = 1 := by decide
        rw [← hoff]
        simp only [Text.byteLength_append, Text.byteLength_cons, hone]
        omega
      · rw [htrimKey]
        exact Opcode.key_toList_of_ofKey? hop
      · intro c hc
        rw [htrimValue, ← readToken_eq_some_iff, htok] at hc
        cases hc
      · rw [hvalueCol]
        simp only [List.length_append, List.length_cons, Text.leadingBlanks]
        omega
    · rw [hr] at h
      cases h

/-- A refused line is refused at a byte offset between two characters of the line, at
most its length in bytes, and the characters before it are those before the column of
its cause. -/
theorem charsBefore_of_readConfigLine {raw : List Char} {offset : Nat}
    {problem : ConfigProblem} (h : readConfigLine raw = .invalid offset problem) :
    ∃ k, Text.charsBefore raw offset = some k ∧ offset ≤ Text.byteLength raw ∧
      ProblemColumn raw problem (k + 1) := by
  obtain ⟨pre, rest, rfl, rfl, hcolumn⟩ := problemColumn_of_readConfigLine h
  refine ⟨pre.length, Text.charsBefore_append_byteLength pre rest, ?_, hcolumn⟩
  rw [Text.byteLength_append]
  exact Nat.le_add_right _ _

/-! ## The first refused line -/

/-- When the reading of the lines below `above` stops with an error, the error is at the
first of them that breaks the grammar, and is what reading that line gives. By induction
over the lines: the reading stops at the first line when it breaks the grammar, and a break
found further down is the first one when that line is no break. -/
theorem scanConfigLines_error_eq_some {above rest : List (List Char)} {e : ConfigError}
    (h : (scanConfigLines (openSection above == some "tokens".toList) (above.length + 1)
        rest).error = some e) :
    ∃ k raw, above.length ≤ k ∧ e.line = k + 1 ∧ e.text = String.ofList raw ∧
      BreaksAt (above ++ rest) k raw ∧
      (∀ k' r, above.length ≤ k' → k' < k → ¬BreaksAt (above ++ rest) k' r) ∧
      ∃ offset, readConfigLine raw = .invalid offset e.problem ∧
        e.column = (Text.charsBefore raw offset).getD 0 + 1 := by
  induction rest generalizing above with
  | nil => simp [scanConfigLines] at h
  | cons raw rest ih =>
      have hlater : (scanConfigLines (openSection (above ++ [raw]) == some "tokens".toList)
            (above.length + 1 + 1) rest).error = some e →
          ¬(openSection above = some "tokens".toList ∧ MustSet raw ∧
              ∀ op c, ¬SetsLine raw op c) →
          ∃ k r, above.length ≤ k ∧ e.line = k + 1 ∧ e.text = String.ofList r ∧
            BreaksAt (above ++ raw :: rest) k r ∧
            (∀ k' r', above.length ≤ k' → k' < k → ¬BreaksAt (above ++ raw :: rest) k' r') ∧
            ∃ offset, readConfigLine r = .invalid offset e.problem ∧
              e.column = (Text.charsBefore r offset).getD 0 + 1 := by
        intro hrest hfirst
        have hrest' : (scanConfigLines (openSection (above ++ [raw]) == some "tokens".toList)
            ((above ++ [raw]).length + 1) rest).error = some e := by
          rwa [List.length_append, List.length_singleton]
        obtain ⟨k, r, hk, hline, htext, hb, hmin, hread⟩ := ih hrest'
        rw [List.length_append, List.length_singleton] at hk hmin
        refine ⟨k, r, by omega, hline, htext,
          (breaksAt_append_cons (by omega)).2 (Or.inr ⟨hk, hb⟩), ?_, hread⟩
        intro k' r' hk' hlt hb'
        rcases (breaksAt_append_cons hk').1 hb' with ⟨rfl, rfl, hb''⟩ | ⟨hk'', hb''⟩
        · exact hfirst hb''
        · exact hmin k' r' hk'' hlt hb''
      rcases scanConfigLines_cons_cases above rest raw (above.length + 1) with
        ⟨offset, problem, hbreak, hl, hscan⟩ | ⟨op, c, ⟨-, -, hset⟩, hscan⟩ | ⟨hpassed, hscan⟩
      · rw [hscan] at h
        obtain rfl : ConfigError.atOffset (above.length + 1) raw offset problem = e :=
          Option.some.inj h
        exact ⟨above.length, raw, le_rfl, rfl, rfl,
          (breaksAt_append_cons le_rfl).2 (Or.inl ⟨rfl, rfl, hbreak⟩),
          fun k' r hk' hlt => absurd hlt (by omega), offset, hl, rfl⟩
      · rw [hscan] at h
        exact hlater h fun hb => hb.2.2 op c hset
      · rw [hscan] at h
        exact hlater h fun hb => hpassed ⟨hb.1, hb.2.1⟩

theorem parseConfig_eq_error_iff {content : String} {e : ConfigError} :
    parseConfig content = .error e ↔ (scanConfig content).error = some e := by
  cases herr : (scanConfig content).error with
  | none => simp [parseConfig, herr]
  | some e' => simp [parseConfig, herr]

/-- The context of an error echoes its line after the gutter, and puts the caret under
character `column` of the line. -/
theorem configContext_caret (e : ConfigError) :
    ∃ caret, Cli.configContext e = Cli.gutter e.line ++ e.text ++ "\n" ++ caret ++ "\n" ∧
      caret.toList.idxOf '^' = (Cli.gutter e.line).length + (e.column - 1) ∧
      (Cli.gutter e.line ++ e.text).toList[(Cli.gutter e.line).length + (e.column - 1)]? =
        e.text.toList[e.column - 1]? := by
  refine ⟨String.ofList (List.replicate ((Cli.gutter e.line).length + (e.column - 1)) ' ') ++
    "^", ?_, ?_, ?_⟩
  · simp only [Cli.configContext, String.append_assoc]
    rfl
  · rw [String.toList_append, String.toList_ofList, List.idxOf_append]
    simp
  · rw [String.toList_append, ← String.length_toList,
      List.getElem?_append_right (Nat.le_add_right _ _), Nat.add_sub_cancel_left]

/-- A refused config is refused at the first line of a tokens section that breaks the
grammar. The error gives the line's number and text, and a column on the line, or just
past its end, that its cause places; the reading finds the problem at a byte offset of
the line that falls between two characters and within the line, and the characters before
it are those before the column. The caret shown under the echoed line stands under that
column. -/
theorem parseConfig_error_at_first_break {content : String} {e : ConfigError}
    (h : parseConfig content = .error e) :
    (∃ k raw, e.line = k + 1 ∧ e.text = String.ofList raw ∧
      BreaksAt (Text.contentLines content.toList) k raw ∧
      (∀ k' raw', k' < k → ¬BreaksAt (Text.contentLines content.toList) k' raw') ∧
      ProblemColumn raw e.problem e.column ∧
      ∃ offset, readConfigLine raw = .invalid offset e.problem ∧
        offset ≤ e.text.utf8ByteSize ∧ Text.charsBefore raw offset = some (e.column - 1)) ∧
    1 ≤ e.column ∧ e.column ≤ e.text.length + 1 ∧
    ∃ caret, Cli.configContext e = Cli.gutter e.line ++ e.text ++ "\n" ++ caret ++ "\n" ∧
      caret.toList.idxOf '^' = (Cli.gutter e.line).length + (e.column - 1) ∧
      (Cli.gutter e.line ++ e.text).toList[(Cli.gutter e.line).length + (e.column - 1)]? =
        e.text.toList[e.column - 1]? := by
  have hscan := parseConfig_eq_error_iff.1 h
  rw [scanConfig_eq] at hscan
  obtain ⟨k, raw, -, hline, htext, hb, hmin, offset, hread, hcol⟩ :=
    scanConfigLines_error_eq_some hscan
  rw [List.nil_append] at hb hmin
  obtain ⟨j, hchars, hle, hcolumn⟩ := charsBefore_of_readConfigLine hread
  rw [hchars, Option.getD_some] at hcol
  rw [← hcol] at hcolumn
  obtain ⟨hlow, hhigh⟩ := hcolumn.column_le
  have hbytes : offset ≤ e.text.utf8ByteSize := by
    rw [htext, ← Text.byteLength_eq_utf8ByteSize]
    exact hle
  have hbefore : Text.charsBefore raw offset = some (e.column - 1) := by
    rw [hchars, hcol, Nat.add_sub_cancel]
  refine ⟨⟨k, raw, hline, htext, hb, fun k' r' => hmin k' r' (Nat.zero_le k'), hcolumn,
    offset, hread, hbytes, hbefore⟩, hlow, ?_, configContext_caret e⟩
  rw [htext, String.length_ofList]
  exact hhigh

/-- An unknown key on line 2 after an ideographic space, three bytes, and a space: the
problem is at byte 4, after two characters, so the error points at the key in column 3. -/
theorem parseConfig_error_at_first_break_jump :
    parseConfig "[tokens]\n\u3000 jump = x\n" =
      .error ⟨2, 3, .unknownOpcode "jump", "\u3000 jump = x"⟩ ∧
    (∃ k raw, (2 : Nat) = k + 1 ∧ "\u3000 jump = x" = String.ofList raw ∧
      BreaksAt (Text.contentLines "[tokens]\n\u3000 jump = x\n".toList) k raw ∧
      (∀ k' raw', k' < k →
        ¬BreaksAt (Text.contentLines "[tokens]\n\u3000 jump = x\n".toList) k' raw') ∧
      ProblemColumn raw (.unknownOpcode "jump") 3 ∧
      ∃ offset, readConfigLine raw = .invalid offset (.unknownOpcode "jump") ∧
        offset ≤ "\u3000 jump = x".utf8ByteSize ∧ Text.charsBefore raw offset = some (3 - 1)) ∧
    1 ≤ 3 ∧ 3 ≤ "\u3000 jump = x".length + 1 ∧
    ∃ caret, Cli.configContext ⟨2, 3, .unknownOpcode "jump", "\u3000 jump = x"⟩ =
        Cli.gutter 2 ++ "\u3000 jump = x" ++ "\n" ++ caret ++ "\n" ∧
      caret.toList.idxOf '^' = (Cli.gutter 2).length + (3 - 1) ∧
      (Cli.gutter 2 ++ "\u3000 jump = x").toList[(Cli.gutter 2).length + (3 - 1)]? =
        "\u3000 jump = x".toList[3 - 1]? :=
  have hparse : parseConfig "[tokens]\n\u3000 jump = x\n" =
      .error ⟨2, 3, .unknownOpcode "jump", "\u3000 jump = x"⟩ := by decide
  ⟨hparse, parseConfig_error_at_first_break hparse⟩

end BrainfuckDialect
