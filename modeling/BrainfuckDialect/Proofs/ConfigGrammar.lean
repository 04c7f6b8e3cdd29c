import Mathlib
import BrainfuckDialect.Config.Parse

/-!
# Which configs are read

A config is read line by line. A header `[name]` opens a section, and a line stands in
a tokens section when the nearest header above it is named `tokens`. There, every line
that is not blank, not a comment and not a header has to set an opcode: a key, `=`,
and a value of one character, bare or between two quotes of one kind. This module
states that grammar on its own terms and proves that reading a config succeeds exactly
on the configs that follow it, and that each opcode then gets the character of the last
line that sets it.

The proofs follow the reading from a value to a setting, a line and the walk over the
lines. The walk is proved for the lines below any lines already read, so that one
induction over the lines carries it.
-/

namespace BrainfuckDialect

/-! ## The grammar -/

/-- A value of one character `c`: bare, or between two double or two single quotes. -/
def TokenValue (value : List Char) (c : Char) : Prop :=
  value = [c] ∨ value = ['"', c, '"'] ∨ value = ['\'', c, '\'']

/-- A line that reads as setting `op` to `c`: cut at its first `=`, the key trims to the
opcode's key and the value trims to one character. -/
def SetsLine (raw : List Char) (op : Opcode) (c : Char) : Prop :=
  ∃ key value, Text.trim raw = key ++ '=' :: value ∧ '=' ∉ key ∧
    Text.trim key = op.key.toList ∧ TokenValue (Text.trim value) c

/-- A line that has to be a setting where settings are read: it is not blank, not a
comment and not a header. -/
def MustSet (raw : List Char) : Prop :=
  Text.trim raw ≠ [] ∧ (Text.trim raw).head? ≠ some '#' ∧ isHeader (Text.trim raw) = false

/-- The name of a header: the trimmed text between its brackets. -/
def headerName (raw : List Char) : List Char :=
  Text.trim ((Text.trim raw).drop 1).dropLast

/-- The section that the lines `above` leave open: that of the last header among them. -/
def openSection (above : List (List Char)) : Option (List Char) :=
  (above.reverse.find? fun raw => isHeader (Text.trim raw)).map headerName

/-- Line `k` of `lines` is `raw`, and the nearest header above it opens a tokens
section. -/
def TokensLine (lines : List (List Char)) (k : Nat) (raw : List Char) : Prop :=
  lines[k]? = some raw ∧ openSection (lines.take k) = some "tokens".toList

/-- Line `k` of `lines` stands in a tokens section, has to be a setting, and sets `op` to
`c`. -/
def SetsAt (lines : List (List Char)) (k : Nat) (op : Opcode) (c : Char) : Prop :=
  ∃ raw, TokensLine lines k raw ∧ MustSet raw ∧ SetsLine raw op c

/-- Line `k` of `lines` is `raw`, stands in a tokens section and has to be a setting,
but sets no opcode. -/
def BreaksAt (lines : List (List Char)) (k : Nat) (raw : List Char) : Prop :=
  TokensLine lines k raw ∧ MustSet raw ∧ ∀ op c, ¬SetsLine raw op c

/-- From line `start` of `lines` on, the last line that sets `op` sets it to `v`; or no
line sets it, and `v` is `fallback`. -/
def LastSet (lines : List (List Char)) (start : Nat) (op : Opcode) (fallback v : Char) :
    Prop :=
  (∃ k, start ≤ k ∧ SetsAt lines k op v ∧ ∀ k' c, start ≤ k' → SetsAt lines k' op c → k' ≤ k) ∨
    ((∀ k c, start ≤ k → ¬SetsAt lines k op c) ∧ v = fallback)

/-! ## Values and settings -/

/-- A text is `mid` between two quotes `q` exactly when it is `q`, then `mid`, then `q`;
the closing quote is the first character of the reversed rest. -/
theorem unquote_eq_some_iff {q : Char} {value mid : List Char} :
    unquote q value = some mid ↔ value = q :: (mid ++ [q]) := by
  cases value with
  | nil => simp [unquote]
  | cons d rest =>
      by_cases hd : d = q
      · subst hd
        cases hrev : rest.reverse with
        | nil =>
            rw [List.reverse_eq_nil_iff] at hrev
            subst hrev
            simp [unquote]
        | cons e m =>
            have hrest : rest = m.reverse ++ [e] := List.reverse_eq_cons_iff.1 hrev
            by_cases he : e = d
            · subst he
              simp [unquote, hrest, eq_comm]
            · simp [unquote, hrest, he]
      · simp [unquote, hd]

/-- A value is read as one character exactly when it is one, bare or quoted. -/
theorem readToken_eq_some_iff {value : List Char} {c : Char} :
    readToken value = some c ↔ TokenValue value c := by
  unfold readToken TokenValue
  cases hd : unquote '"' value with
  | some mid =>
      obtain rfl := unquote_eq_some_iff.1 hd
      match mid with
      | [] => simp
      | [x] => simp
      | x :: y :: rest => simp
  | none =>
      have hd' : value ≠ ['"', c, '"'] := by
        rintro rfl
        simp [unquote] at hd
      cases hs : unquote '\'' value with
      | some mid =>
          obtain rfl := unquote_eq_some_iff.1 hs
          match mid with
          | [] => simp
          | [x] => simp
          | x :: y :: rest => simp
      | none =>
          have hs' : value ≠ ['\'', c, '\''] := by
            rintro rfl
            simp [unquote] at hs
          simp only [Option.orElse_none, Option.getD_none, hd', hs', or_false]
          match value with
          | [] => simp
          | [x] => simp
          | x :: y :: rest => simp

theorem Opcode.ofKey?_eq_some_iff {k : String} {op : Opcode} :
    Opcode.ofKey? k = some op ↔ op.key = k := by
  constructor
  · intro h
    simpa using List.find?_some h
  · rintro rfl
    exact Opcode.ofKey?_key op

/-- The first `=` of a line cuts it into a key without `=` and the rest. -/
theorem idxOf?_eq_some_iff_append {line : List Char} {i : Nat} :
    line.idxOf? '=' = some i ↔
      ∃ key value, line = key ++ '=' :: value ∧ '=' ∉ key ∧ i = key.length := by
  rw [List.idxOf?_eq_some_iff]
  constructor
  · rintro ⟨hi, heq, hbefore⟩
    refine ⟨line.take i, line.drop (i + 1), ?_, ?_, (List.length_take_of_le hi.le).symm⟩
    · rw [← heq, List.getElem_cons_drop, List.take_append_drop]
    · intro hmem
      obtain ⟨j, hj, hjeq⟩ := List.mem_take_iff_getElem.1 hmem
      exact hbefore j (by omega) hjeq
  · rintro ⟨key, value, rfl, hkey, rfl⟩
    refine ⟨by simp, by simp, fun j hj heq => hkey ?_⟩
    rw [List.getElem_append_left hj] at heq
    exact heq ▸ List.getElem_mem hj

theorem readSetting_of_not_mem {indent : Nat} {line : List Char} (h : '=' ∉ line) :
    readSetting indent line = .invalid indent .missingEquals := by
  rw [readSetting, List.idxOf?_eq_none_iff.2 h]

/-! A line with an `=` is read as its key and value, cut at the first `=`: one lemma for
each outcome. -/

theorem readSetting_append_cons_of_unknown {indent : Nat} {key value : List Char}
    (h : '=' ∉ key) (hop : Opcode.ofKey? (String.ofList (Text.trim key)) = none) :
    readSetting indent (key ++ '=' :: value) =
      .invalid (indent + Text.leadingBlankBytes key)
        (.unknownOpcode (String.ofList (Text.trim key))) := by
  have hidx := idxOf?_eq_some_iff_append.2 ⟨key, value, rfl, h, rfl⟩
  simp [readSetting, hidx, hop]

theorem readSetting_append_cons_of_value {indent : Nat} {key value : List Char} {op : Opcode}
    (h : '=' ∉ key) (hop : Opcode.ofKey? (String.ofList (Text.trim key)) = some op)
    (htok : readToken (Text.trim value) = none) :
    readSetting indent (key ++ '=' :: value) =
      .invalid (indent + Text.byteLength key + 1 + Text.leadingBlankBytes value)
        (.notOneCharacter op) := by
  have hidx := idxOf?_eq_some_iff_append.2 ⟨key, value, rfl, h, rfl⟩
  simp [readSetting, hidx, hop, htok]

theorem readSetting_append_cons_of_setting {indent : Nat} {key value : List Char} {op : Opcode}
    {c : Char} (h : '=' ∉ key) (hop : Opcode.ofKey? (String.ofList (Text.trim key)) = some op)
    (htok : readToken (Text.trim value) = some c) :
    readSetting indent (key ++ '=' :: value) = .setting op c := by
  have hidx := idxOf?_eq_some_iff_append.2 ⟨key, value, rfl, h, rfl⟩
  simp [readSetting, hidx, hop, htok]

/-- The three outcomes of a line cut at its first `=`: its key names no opcode, its value
is not one character, or it sets the opcode to the character. -/
theorem readSetting_append_cons_cases (indent : Nat) {key value : List Char} (h : '=' ∉ key) :
    (Opcode.ofKey? (String.ofList (Text.trim key)) = none ∧
      readSetting indent (key ++ '=' :: value) =
        .invalid (indent + Text.leadingBlankBytes key)
          (.unknownOpcode (String.ofList (Text.trim key)))) ∨
    (∃ op, Opcode.ofKey? (String.ofList (Text.trim key)) = some op ∧
      readToken (Text.trim value) = none ∧
      readSetting indent (key ++ '=' :: value) =
        .invalid (indent + Text.byteLength key + 1 + Text.leadingBlankBytes value)
          (.notOneCharacter op)) ∨
    (∃ op c, Opcode.ofKey? (String.ofList (Text.trim key)) = some op ∧
      readToken (Text.trim value) = some c ∧
      readSetting indent (key ++ '=' :: value) = .setting op c) := by
  cases hop : Opcode.ofKey? (String.ofList (Text.trim key)) with
  | none => exact Or.inl ⟨rfl, readSetting_append_cons_of_unknown h hop⟩
  | some op =>
      cases htok : readToken (Text.trim value) with
      | none => exact Or.inr (Or.inl ⟨op, rfl, rfl, readSetting_append_cons_of_value h hop htok⟩)
      | some c =>
          exact Or.inr (Or.inr ⟨op, c, rfl, rfl, readSetting_append_cons_of_setting h hop htok⟩)

/-- A line has no `=`, or is cut at its first `=`. -/
theorem not_mem_or_eq_append_cons (line : List Char) :
    '=' ∉ line ∨ ∃ key value, line = key ++ '=' :: value ∧ '=' ∉ key := by
  cases h : line.idxOf? '=' with
  | none => exact Or.inl (List.idxOf?_eq_none_iff.1 h)
  | some i =>
      obtain ⟨key, value, hline, hkey, -⟩ := idxOf?_eq_some_iff_append.1 h
      exact Or.inr ⟨key, value, hline, hkey⟩

/-- A trimmed line is read as setting `op` to `c` exactly when it is a key without `=`, then
`=` and a value, the key trimming to the opcode's key and the value to one character. The
cut at the first `=` is unique, so there is only one key and one value to check. -/
theorem readSetting_eq_setting_iff {indent : Nat} {line : List Char} {op : Opcode} {c : Char} :
    readSetting indent line = .setting op c ↔
      ∃ key value, line = key ++ '=' :: value ∧ '=' ∉ key ∧
        Text.trim key = op.key.toList ∧ TokenValue (Text.trim value) c := by
  rcases not_mem_or_eq_append_cons line with hline | ⟨key, value, rfl, hkey⟩
  · rw [readSetting_of_not_mem hline]
    simp only [reduceCtorEq, false_iff, not_exists, not_and]
    rintro key value rfl -
    simp at hline
  · have hcut : ∀ key' value', key ++ '=' :: value = key' ++ '=' :: value' → '=' ∉ key' →
        key' = key ∧ value' = value := by
      intro key' value' heq hkey'
      have hi := (idxOf?_eq_some_iff_append.2 ⟨key, value, rfl, hkey, rfl⟩).symm.trans
        (idxOf?_eq_some_iff_append.2 ⟨key', value', heq, hkey', rfl⟩)
      have hlen : key.length = key'.length := Option.some.inj hi
      have := List.append_inj heq hlen
      exact ⟨this.1.symm, (List.cons.inj this.2).2.symm⟩
    constructor
    · intro h
      rcases readSetting_append_cons_cases indent hkey with
        ⟨-, hr⟩ | ⟨op', -, -, hr⟩ | ⟨op', c', hop, htok, hr⟩
      · exact absurd (hr.symm.trans h) (by simp)
      · exact absurd (hr.symm.trans h) (by simp)
      · obtain ⟨rfl, rfl⟩ : op' = op ∧ c' = c := by simpa using hr.symm.trans h
        refine ⟨key, value, rfl, hkey, ?_, readToken_eq_some_iff.1 htok⟩
        rw [Opcode.ofKey?_eq_some_iff.1 hop, String.toList_ofList]
    · rintro ⟨key', value', heq, hkey', hk, hv⟩
      obtain ⟨rfl, rfl⟩ := hcut key' value' heq hkey'
      have hop : Opcode.ofKey? (String.ofList (Text.trim key')) = some op := by
        rw [hk, String.ofList_toList, Opcode.ofKey?_key]
      exact readSetting_append_cons_of_setting hkey' hop (readToken_eq_some_iff.2 hv)

theorem readSetting_cases (indent : Nat) (line : List Char) :
    (∃ op c, readSetting indent line = .setting op c) ∨
      ∃ offset problem, readSetting indent line = .invalid offset problem := by
  rcases not_mem_or_eq_append_cons line with hline | ⟨key, value, rfl, hkey⟩
  · exact Or.inr ⟨_, _, readSetting_of_not_mem hline⟩
  · rcases readSetting_append_cons_cases indent hkey with
      ⟨-, hr⟩ | ⟨op, -, -, hr⟩ | ⟨op, c, -, -, hr⟩
    · exact Or.inr ⟨_, _, hr⟩
    · exact Or.inr ⟨_, _, hr⟩
    · exact Or.inl ⟨op, c, hr⟩

/-! ## Lines -/

theorem readConfigLine_of_mustSet {raw : List Char} (h : MustSet raw) :
    readConfigLine raw = readSetting (Text.leadingBlankBytes raw) (Text.trim raw) := by
  obtain ⟨hne, hhash, hheader⟩ := h
  have hempty : (Text.trim raw).isEmpty = false := List.isEmpty_eq_false_iff.2 hne
  simp [readConfigLine, hempty, hhash, hheader]

/-- A header starts with `[`, so it is neither blank nor a comment, and it is read as a
header with its name. -/
theorem readConfigLine_of_isHeader {raw : List Char} (h : isHeader (Text.trim raw) = true) :
    readConfigLine raw = .header (headerName raw) := by
  have hhead : (Text.trim raw).head? = some '[' := by
    simp only [isHeader, Bool.and_eq_true, beq_iff_eq] at h
    exact h.1
  have hskip : ((Text.trim raw).isEmpty || (Text.trim raw).head? == some '#') = false := by
    cases htrim : Text.trim raw with
    | nil => simp [htrim] at hhead
    | cons x xs =>
        rw [htrim, List.head?_cons, Option.some.injEq] at hhead
        simp [hhead]
  simp [readConfigLine, hskip, h, headerName]

/-- A line that need not be a setting is a header, which opens a section, or else it is
blank or a comment and is skipped. -/
theorem readConfigLine_of_not_mustSet {raw : List Char} (h : ¬MustSet raw) :
    (readConfigLine raw = .skip ∧ isHeader (Text.trim raw) = false) ∨
      (isHeader (Text.trim raw) = true ∧ readConfigLine raw = .header (headerName raw)) := by
  cases hheader : isHeader (Text.trim raw)
  · have hskip : Text.trim raw = [] ∨ (Text.trim raw).head? = some '#' := by
      by_contra hc
      exact h ⟨fun hnil => hc (Or.inl hnil), fun hhash => hc (Or.inr hhash), hheader⟩
    refine Or.inl ⟨?_, rfl⟩
    rcases hskip with hs | hs <;> simp [readConfigLine, hs]
  · exact Or.inr ⟨rfl, readConfigLine_of_isHeader hheader⟩

theorem readConfigLine_eq_setting_iff {raw : List Char} {op : Opcode} {c : Char} :
    readConfigLine raw = .setting op c ↔ MustSet raw ∧ SetsLine raw op c := by
  by_cases h : MustSet raw
  · rw [readConfigLine_of_mustSet h, readSetting_eq_setting_iff]
    simp [h, SetsLine]
  · rcases readConfigLine_of_not_mustSet h with ⟨hl, -⟩ | ⟨-, hl⟩ <;> simp [hl, h]

theorem readConfigLine_eq_invalid {raw : List Char} {offset : Nat} {problem : ConfigProblem}
    (h : readConfigLine raw = .invalid offset problem) :
    MustSet raw ∧ ∀ op c, ¬SetsLine raw op c := by
  by_cases hm : MustSet raw
  · refine ⟨hm, fun op c hs => ?_⟩
    rw [readConfigLine_eq_setting_iff.2 ⟨hm, hs⟩] at h
    cases h
  · rcases readConfigLine_of_not_mustSet hm with ⟨hl, -⟩ | ⟨-, hl⟩ <;> rw [hl] at h <;> cases h

/-- A line that has to be a setting and sets nothing is refused. -/
theorem readConfigLine_eq_invalid_of {raw : List Char} (h : MustSet raw)
    (hno : ∀ op c, ¬SetsLine raw op c) :
    ∃ offset problem, readConfigLine raw = .invalid offset problem := by
  rw [readConfigLine_of_mustSet h]
  rcases readSetting_cases (Text.leadingBlankBytes raw) (Text.trim raw) with
    ⟨op, c, hset⟩ | hinvalid
  · rw [← readConfigLine_of_mustSet h, readConfigLine_eq_setting_iff] at hset
    exact absurd hset.2 (hno op c)
  · exact hinvalid

/-- A line that has to be a setting sets at most one opcode, to at most one character. -/
theorem SetsLine.unique {raw : List Char} {op op' : Opcode} {c c' : Char} (hm : MustSet raw)
    (h : SetsLine raw op c) (h' : SetsLine raw op' c') :
    op' = op ∧ c' = c := by
  have hl := readConfigLine_eq_setting_iff.2 ⟨hm, h⟩
  rw [readConfigLine_eq_setting_iff.2 ⟨hm, h'⟩] at hl
  exact ConfigLine.setting.inj hl

/-! ## Sections -/

theorem openSection_append_singleton (above : List (List Char)) (raw : List Char) :
    openSection (above ++ [raw]) =
      if isHeader (Text.trim raw) then some (headerName raw) else openSection above := by
  unfold openSection
  rw [List.reverse_append, List.reverse_singleton, List.singleton_append, List.find?_cons]
  cases isHeader (Text.trim raw) <;> simp

theorem openSection_append_of_mustSet (above : List (List Char)) {raw : List Char}
    (h : MustSet raw) :
    openSection (above ++ [raw]) = openSection above := by
  rw [openSection_append_singleton, if_neg (by simp [h.2.2])]

/-- Line `above.length` of `above ++ raw :: rest` is `raw`, read below `above`; the lines
after it are read below `above ++ [raw]`. -/
theorem tokensLine_append_cons {above rest : List (List Char)} {raw r : List Char} {k : Nat}
    (hk : above.length ≤ k) :
    TokensLine (above ++ raw :: rest) k r ↔
      (k = above.length ∧ r = raw ∧ openSection above = some "tokens".toList) ∨
        (above.length + 1 ≤ k ∧ TokensLine (above ++ [raw] ++ rest) k r) := by
  rcases Nat.lt_or_eq_of_le hk with hlt | rfl
  · have hlist : above ++ raw :: rest = above ++ [raw] ++ rest := by simp
    rw [hlist]
    simp [Nat.ne_of_gt hlt, Nat.succ_le_of_lt hlt]
  · have hline : (above ++ raw :: rest)[above.length]? = some raw := by
      simp
    have htake : (above ++ raw :: rest).take above.length = above := List.take_left' rfl
    simp [TokensLine, htake, eq_comm]

theorem breaksAt_append_cons {above rest : List (List Char)} {raw r : List Char} {k : Nat}
    (hk : above.length ≤ k) :
    BreaksAt (above ++ raw :: rest) k r ↔
      (k = above.length ∧ r = raw ∧ openSection above = some "tokens".toList ∧ MustSet raw ∧
          ∀ op c, ¬SetsLine raw op c) ∨
        (above.length + 1 ≤ k ∧ BreaksAt (above ++ [raw] ++ rest) k r) := by
  simp only [BreaksAt, tokensLine_append_cons hk]
  constructor
  · rintro ⟨⟨rfl, rfl, ho⟩ | ⟨hk', ht⟩, hm, hs⟩
    · exact Or.inl ⟨rfl, rfl, ho, hm, hs⟩
    · exact Or.inr ⟨hk', ht, hm, hs⟩
  · rintro (⟨rfl, rfl, ho, hm, hs⟩ | ⟨hk', ht, hm, hs⟩)
    · exact ⟨Or.inl ⟨rfl, rfl, ho⟩, hm, hs⟩
    · exact ⟨Or.inr ⟨hk', ht⟩, hm, hs⟩

theorem setsAt_append_cons {above rest : List (List Char)} {raw : List Char} {k : Nat}
    {op : Opcode} {c : Char} (hk : above.length ≤ k) :
    SetsAt (above ++ raw :: rest) k op c ↔
      (k = above.length ∧ openSection above = some "tokens".toList ∧ MustSet raw ∧
          SetsLine raw op c) ∨
        (above.length + 1 ≤ k ∧ SetsAt (above ++ [raw] ++ rest) k op c) := by
  simp only [SetsAt, tokensLine_append_cons hk]
  constructor
  · rintro ⟨r, ⟨rfl, rfl, ho⟩ | ⟨hk', ht⟩, hm, hs⟩
    · exact Or.inl ⟨rfl, ho, hm, hs⟩
    · exact Or.inr ⟨hk', r, ht, hm, hs⟩
  · rintro (⟨rfl, ho, hm, hs⟩ | ⟨hk', r, ht, hm, hs⟩)
    · exact ⟨raw, Or.inl ⟨rfl, rfl, ho⟩, hm, hs⟩
    · exact ⟨r, Or.inr ⟨hk', ht⟩, hm, hs⟩

/-- The last setting from `start` on depends only on the settings from `start` on. -/
theorem lastSet_congr {lines lines' : List (List Char)} {start start' : Nat} {op : Opcode}
    {fallback v : Char}
    (h : ∀ k c, start ≤ k ∧ SetsAt lines k op c ↔ start' ≤ k ∧ SetsAt lines' k op c) :
    LastSet lines start op fallback v → LastSet lines' start' op fallback v := by
  rintro (⟨k, hk, hset, hmax⟩ | ⟨hnone, rfl⟩)
  · obtain ⟨hk', hset'⟩ := (h k v).1 ⟨hk, hset⟩
    refine Or.inl ⟨k, hk', hset', fun j c hj hsetj => ?_⟩
    obtain ⟨hj', hsetj'⟩ := (h j c).2 ⟨hj, hsetj⟩
    exact hmax j c hj' hsetj'
  · refine Or.inr ⟨fun k c hk hset => ?_, rfl⟩
    obtain ⟨hk', hset'⟩ := (h k c).2 ⟨hk, hset⟩
    exact hnone k c hk' hset'

/-- When line `above.length` does not set `op`, the last setting of `op` from there on is
the last one after it, since a setting at or after that line is one after it. -/
theorem lastSet_append_cons_of_not {above rest : List (List Char)} {raw : List Char}
    {op : Opcode} {fallback v : Char}
    (h : ∀ c, ¬(openSection above = some "tokens".toList ∧ MustSet raw ∧ SetsLine raw op c)) :
    LastSet (above ++ raw :: rest) above.length op fallback v ↔
      LastSet (above ++ [raw] ++ rest) (above.length + 1) op fallback v := by
  have hshift : ∀ k c, above.length ≤ k ∧ SetsAt (above ++ raw :: rest) k op c ↔
      above.length + 1 ≤ k ∧ SetsAt (above ++ [raw] ++ rest) k op c := by
    intro k c
    constructor
    · rintro ⟨hk, hset⟩
      rcases (setsAt_append_cons hk).1 hset with ⟨-, hset'⟩ | hlater
      · exact absurd hset' (h c)
      · exact hlater
    · rintro ⟨hk, hset⟩
      exact ⟨by omega, (setsAt_append_cons (by omega)).2 (Or.inr ⟨hk, hset⟩)⟩
  exact ⟨lastSet_congr hshift, lastSet_congr fun k c => (hshift k c).symm⟩

/-- When line `above.length` sets `op` to `c`, the last setting of `op` from there on is
the last one after it, and `c` when there is none: the line is then the last setting. -/
theorem lastSet_append_cons_of_sets {above rest : List (List Char)} {raw : List Char}
    {op : Opcode} {c fallback v : Char}
    (h : openSection above = some "tokens".toList ∧ MustSet raw ∧ SetsLine raw op c)
    (hunique : ∀ c', SetsLine raw op c' → c' = c) :
    LastSet (above ++ raw :: rest) above.length op fallback v ↔
      LastSet (above ++ [raw] ++ rest) (above.length + 1) op c v := by
  have hshift : ∀ k c', above.length ≤ k →
      (SetsAt (above ++ raw :: rest) k op c' ↔
        (k = above.length ∧ c' = c) ∨
          (above.length + 1 ≤ k ∧ SetsAt (above ++ [raw] ++ rest) k op c')) := by
    intro k c' hk
    rw [setsAt_append_cons hk]
    constructor
    · rintro (⟨rfl, -, -, hset⟩ | hlater)
      · exact Or.inl ⟨rfl, hunique c' hset⟩
      · exact Or.inr hlater
    · rintro (⟨rfl, rfl⟩ | hlater)
      · exact Or.inl ⟨rfl, h⟩
      · exact Or.inr hlater
  constructor
  · rintro (⟨k, hk, hset, hmax⟩ | ⟨hnone, -⟩)
    · rcases (hshift k v hk).1 hset with ⟨rfl, rfl⟩ | ⟨hk', hset'⟩
      · refine Or.inr ⟨fun k' c' hk' hset' => ?_, rfl⟩
        have := hmax k' c' (by omega) ((hshift k' c' (by omega)).2 (Or.inr ⟨hk', hset'⟩))
        omega
      · refine Or.inl ⟨k, hk', hset', fun k' c' hk'' hset'' => ?_⟩
        exact hmax k' c' (by omega) ((hshift k' c' (by omega)).2 (Or.inr ⟨hk'', hset''⟩))
    · exact absurd ((hshift above.length c le_rfl).2 (Or.inl ⟨rfl, rfl⟩))
        (hnone above.length c le_rfl)
  · rintro (⟨k, hk, hset, hmax⟩ | ⟨hnone, rfl⟩)
    · refine Or.inl ⟨k, by omega, (hshift k v (by omega)).2 (Or.inr ⟨hk, hset⟩), ?_⟩
      intro k' c' hk' hset'
      rcases (hshift k' c' hk').1 hset' with ⟨rfl, -⟩ | ⟨hk'', hset''⟩
      · omega
      · exact hmax k' c' hk'' hset''
    · refine Or.inl ⟨above.length, le_rfl, (hshift above.length v le_rfl).2 (Or.inl ⟨rfl, rfl⟩), ?_⟩
      intro k' c' hk' hset'
      rcases (hshift k' c' hk').1 hset' with ⟨rfl, -⟩ | ⟨hk'', hset''⟩
      · exact le_rfl
      · exact absurd hset'' (hnone k' c' hk'')

/-! ## The walk over the lines

The reading keeps one piece of state, whether it is in a tokens section; below the lines
`above` that is `openSection above == some "tokens"`. Each step lemma says what reading
one more line does to the result, in those terms. -/

/-- A line that need not be a setting only moves the section along. -/
theorem scanConfigLines_cons_of_not_mustSet {above rest : List (List Char)}
    {raw : List Char} {n : Nat} (h : ¬MustSet raw) :
    scanConfigLines (openSection above == some "tokens".toList) n (raw :: rest) =
      scanConfigLines (openSection (above ++ [raw]) == some "tokens".toList) (n + 1) rest := by
  rw [openSection_append_singleton]
  rcases readConfigLine_of_not_mustSet h with ⟨hl, hnot⟩ | ⟨hheader, hl⟩
  · simp [scanConfigLines, hl, hnot]
  · simp [scanConfigLines, hl, hheader]

/-- A setting in a tokens section is recorded, and passed over elsewhere. -/
theorem scanConfigLines_cons_of_setting {above rest : List (List Char)} {raw : List Char}
    {n : Nat} {op : Opcode} {c : Char} (h : readConfigLine raw = .setting op c) :
    scanConfigLines (openSection above == some "tokens".toList) n (raw :: rest) =
      if openSection above = some "tokens".toList then
        ⟨(op, c) :: (scanConfigLines (openSection (above ++ [raw]) == some "tokens".toList)
            (n + 1) rest).settings,
          (scanConfigLines (openSection (above ++ [raw]) == some "tokens".toList)
            (n + 1) rest).error⟩
      else scanConfigLines (openSection (above ++ [raw]) == some "tokens".toList) (n + 1) rest := by
  rw [openSection_append_of_mustSet above (readConfigLine_eq_setting_iff.1 h).1,
    scanConfigLines, h]
  by_cases ho : openSection above = some "tokens".toList
  · simp only [ho, beq_self_eq_true, if_true]
  · simp only [beq_eq_false_iff_ne.2 ho, ho, Bool.false_eq_true, if_false]

/-- A refused line in a tokens section stops the reading with its error, and is passed
over elsewhere. -/
theorem scanConfigLines_cons_of_invalid {above rest : List (List Char)} {raw : List Char}
    {n offset : Nat} {problem : ConfigProblem}
    (h : readConfigLine raw = .invalid offset problem) :
    scanConfigLines (openSection above == some "tokens".toList) n (raw :: rest) =
      if openSection above = some "tokens".toList then
        ⟨[], some (ConfigError.atOffset n raw offset problem)⟩
      else scanConfigLines (openSection (above ++ [raw]) == some "tokens".toList) (n + 1) rest := by
  rw [openSection_append_of_mustSet above (readConfigLine_eq_invalid h).1, scanConfigLines, h]
  by_cases ho : openSection above = some "tokens".toList
  · simp only [ho, beq_self_eq_true, if_true]
  · simp only [beq_eq_false_iff_ne.2 ho, ho, Bool.false_eq_true, if_false]

/-- Reading one more line does one of three things: in a tokens section, a line that has
to be a setting stops the reading with its error or is recorded; any other line is passed
over, and outside a tokens section so are a setting and a refused line. -/
theorem scanConfigLines_cons_cases (above rest : List (List Char)) (raw : List Char)
    (n : Nat) :
    (∃ offset problem, (openSection above = some "tokens".toList ∧ MustSet raw ∧
        ∀ op c, ¬SetsLine raw op c) ∧ readConfigLine raw = .invalid offset problem ∧
      scanConfigLines (openSection above == some "tokens".toList) n (raw :: rest) =
        ⟨[], some (ConfigError.atOffset n raw offset problem)⟩) ∨
    (∃ op c, (openSection above = some "tokens".toList ∧ MustSet raw ∧ SetsLine raw op c) ∧
      scanConfigLines (openSection above == some "tokens".toList) n (raw :: rest) =
        ⟨(op, c) :: (scanConfigLines (openSection (above ++ [raw]) == some "tokens".toList)
            (n + 1) rest).settings,
          (scanConfigLines (openSection (above ++ [raw]) == some "tokens".toList)
            (n + 1) rest).error⟩) ∨
    (¬(openSection above = some "tokens".toList ∧ MustSet raw) ∧
      scanConfigLines (openSection above == some "tokens".toList) n (raw :: rest) =
        scanConfigLines (openSection (above ++ [raw]) == some "tokens".toList) (n + 1) rest) := by
  by_cases hm : MustSet raw
  · by_cases ho : openSection above = some "tokens".toList
    · by_cases hs : ∃ op c, SetsLine raw op c
      · obtain ⟨op, c, hs⟩ := hs
        have hl := readConfigLine_eq_setting_iff.2 ⟨hm, hs⟩
        refine Or.inr (Or.inl ⟨op, c, ⟨ho, hm, hs⟩, ?_⟩)
        rw [scanConfigLines_cons_of_setting hl, if_pos ho]
      · simp only [not_exists] at hs
        obtain ⟨offset, problem, hl⟩ := readConfigLine_eq_invalid_of hm hs
        refine Or.inl ⟨offset, problem, ⟨ho, hm, hs⟩, hl, ?_⟩
        rw [scanConfigLines_cons_of_invalid hl, if_pos ho]
    · refine Or.inr (Or.inr ⟨fun h => ho h.1, ?_⟩)
      rcases readSetting_cases (Text.leadingBlankBytes raw) (Text.trim raw) with
        ⟨op, c, hl⟩ | ⟨offset, problem, hl⟩
      · rw [← readConfigLine_of_mustSet hm] at hl
        rw [scanConfigLines_cons_of_setting hl, if_neg ho]
      · rw [← readConfigLine_of_mustSet hm] at hl
        rw [scanConfigLines_cons_of_invalid hl, if_neg ho]
  · exact Or.inr (Or.inr ⟨fun h => hm h.2, scanConfigLines_cons_of_not_mustSet hm⟩)

/-- The lines below `above` are read without error exactly when none of them breaks the
grammar. By induction over the lines: the first of them is line `above.length`, and the
lines after it are read below `above ++ [raw]`; the reading stops at the first line when
it breaks the grammar, and otherwise the answer is that of the lines after it. -/
theorem scanConfigLines_error_eq_none_iff (above rest : List (List Char)) :
    (scanConfigLines (openSection above == some "tokens".toList) (above.length + 1)
        rest).error = none ↔
      ∀ k raw, above.length ≤ k → ¬BreaksAt (above ++ rest) k raw := by
  induction rest generalizing above with
  | nil =>
      simp only [scanConfigLines, List.append_nil, true_iff]
      intro k raw hk hbreak
      have hline := hbreak.1.1
      rw [List.getElem?_eq_none hk] at hline
      cases hline
  | cons raw rest ih =>
      have hrest := ih (above ++ [raw])
      rw [List.length_append, List.length_singleton] at hrest
      have hsplit : (∀ k r, above.length ≤ k → ¬BreaksAt (above ++ raw :: rest) k r) ↔
          ¬(openSection above = some "tokens".toList ∧ MustSet raw ∧
              ∀ op c, ¬SetsLine raw op c) ∧
            ∀ k r, above.length + 1 ≤ k → ¬BreaksAt (above ++ [raw] ++ rest) k r := by
        constructor
        · intro h
          refine ⟨fun hb => h above.length raw le_rfl
              ((breaksAt_append_cons le_rfl).2 (Or.inl ⟨rfl, rfl, hb⟩)), ?_⟩
          intro k r hk hb
          exact h k r (by omega) ((breaksAt_append_cons (by omega)).2 (Or.inr ⟨hk, hb⟩))
        · rintro ⟨hfirst, hlater⟩ k r hk hb
          rcases (breaksAt_append_cons hk).1 hb with ⟨rfl, rfl, hb'⟩ | ⟨hk', hb'⟩
          · exact hfirst hb'
          · exact hlater k r hk' hb'
      rw [hsplit]
      have hpass : ¬(openSection above = some "tokens".toList ∧ MustSet raw ∧
            ∀ op c, ¬SetsLine raw op c) →
          ((scanConfigLines (openSection (above ++ [raw]) == some "tokens".toList)
              (above.length + 1 + 1) rest).error = none ↔
            ¬(openSection above = some "tokens".toList ∧ MustSet raw ∧
                ∀ op c, ¬SetsLine raw op c) ∧
              ∀ k r, above.length + 1 ≤ k → ¬BreaksAt (above ++ [raw] ++ rest) k r) :=
        fun hfirst => ⟨fun h => ⟨hfirst, hrest.1 h⟩, fun h => hrest.2 h.2⟩
      rcases scanConfigLines_cons_cases above rest raw (above.length + 1) with
        ⟨_, _, hbreak, -, hscan⟩ | ⟨op, c, ⟨-, -, hset⟩, hscan⟩ | ⟨hpassed, hscan⟩
      · rw [hscan]
        constructor
        · intro h
          cases h
        · rintro ⟨hfirst, -⟩
          exact absurd hbreak hfirst
      · rw [hscan]
        exact hpass fun hb => hb.2.2 op c hset
      · rw [hscan]
        exact hpass fun hb => hpassed ⟨hb.1, hb.2.1⟩

/-- When the lines below `above` are read without error, each opcode ends with the
character of the last of them that sets it, and keeps the character it had when none
does. By induction over the lines, those after the first read below `above ++ [raw]`: the
reading did not stop at the first line, and a setting recorded there is applied before the
later ones. -/
theorem lastSet_of_scanConfigLines {above rest : List (List Char)} {n : Nat} {s : ConfigScan}
    (hs : scanConfigLines (openSection above == some "tokens".toList) n rest = s)
    (herr : s.error = none) (d : Dialect) (op : Opcode) :
    LastSet (above ++ rest) above.length op (d.canonical op)
      ((d.withCanonicals s.settings).canonical op) := by
  induction rest generalizing above n s d with
  | nil =>
      subst hs
      refine Or.inr ⟨fun k c hk hset => ?_, rfl⟩
      obtain ⟨r, ⟨hr, -⟩, -⟩ := hset
      rw [List.append_nil, List.getElem?_eq_none hk] at hr
      cases hr
  | cons raw rest ih =>
      have hnext : ∀ {s'}, scanConfigLines (openSection (above ++ [raw]) == some "tokens".toList)
            (n + 1) rest = s' → s'.error = none → ∀ d : Dialect,
          LastSet (above ++ [raw] ++ rest) (above.length + 1) op (d.canonical op)
            ((d.withCanonicals s'.settings).canonical op) := by
        intro s' hs' herr' d
        have hlast := @ih (above ++ [raw]) (n + 1) s' hs' herr' d
        rwa [List.length_append, List.length_singleton] at hlast
      rcases scanConfigLines_cons_cases above rest raw n with
        ⟨_, _, -, -, hscan⟩ | ⟨op₀, c₀, ⟨ho, hm, hset⟩, hscan⟩ | ⟨hpassed, hscan⟩
      · rw [hscan] at hs
        subst hs
        cases herr
      · rw [hscan] at hs
        subst hs
        have hrest := hnext rfl herr (d.withCanonical op₀ c₀)
        by_cases hop : op = op₀
        · subst hop
          have hfallback : (d.withCanonical op c₀).canonical op = c₀ := by simp
          rw [lastSet_append_cons_of_sets ⟨ho, hm, hset⟩ fun c' hc' => (hset.unique hm hc').2]
          rw [hfallback] at hrest
          exact hrest
        · have hfallback : (d.withCanonical op₀ c₀).canonical op = d.canonical op := by
            simp [hop]
          rw [lastSet_append_cons_of_not fun c hc => hop (hset.unique hm hc.2.2).1]
          rw [hfallback] at hrest
          exact hrest
      · rw [hscan] at hs
        rw [lastSet_append_cons_of_not fun c hc => hpassed ⟨hc.1, hc.2.1⟩]
        exact hnext hs herr d

theorem parseConfig_eq_ok_iff {content : String} {d : Dialect} :
    parseConfig content = .ok d ↔
      (scanConfig content).error = none ∧
        d = Dialect.letters.withCanonicals (scanConfig content).settings := by
  cases herr : (scanConfig content).error with
  | none => simp [parseConfig, herr, eq_comm]
  | some e => simp [parseConfig, herr]

/-- The reading of a config starts outside any section, at line 1. -/
theorem scanConfig_eq (content : String) :
    scanConfig content =
      scanConfigLines (openSection [] == some "tokens".toList) (([] : List (List Char)).length + 1)
        (Text.contentLines content.toList) := rfl

/-- A config is read exactly when every line of a tokens section that has to be a
setting is one. Each opcode then has the character of the last line that sets it, and
its character in the letters dialect when no line does. -/
theorem parseConfig_ok_iff_grammar (content : String) :
    ((∃ d, parseConfig content = .ok d) ↔
      ∀ k raw, TokensLine (Text.contentLines content.toList) k raw → MustSet raw →
        ∃ op c, SetsLine raw op c) ∧
    ∀ d, parseConfig content = .ok d → ∀ op,
      (∃ k, SetsAt (Text.contentLines content.toList) k op (d.canonical op) ∧
          ∀ k' c, SetsAt (Text.contentLines content.toList) k' op c → k' ≤ k) ∨
        ((∀ k c, ¬SetsAt (Text.contentLines content.toList) k op c) ∧
          d.canonical op = op.defaultCanonical) := by
  have hnone := scanConfigLines_error_eq_none_iff [] (Text.contentLines content.toList)
  rw [← scanConfig_eq, List.nil_append] at hnone
  constructor
  · constructor
    · rintro ⟨d, hd⟩
      intro k raw hline hm
      by_contra hno
      exact hnone.1 (parseConfig_eq_ok_iff.1 hd).1 k raw (Nat.zero_le k)
        ⟨hline, hm, fun op c hs => hno ⟨op, c, hs⟩⟩
    · intro h
      have herr : (scanConfig content).error = none := by
        refine hnone.2 fun k raw _ hb => ?_
        obtain ⟨op, c, hs⟩ := h k raw hb.1 hb.2.1
        exact hb.2.2 op c hs
      exact ⟨_, parseConfig_eq_ok_iff.2 ⟨herr, rfl⟩⟩
  · intro d hd op
    obtain ⟨herr, rfl⟩ := parseConfig_eq_ok_iff.1 hd
    have hlast := lastSet_of_scanConfigLines (scanConfig_eq content).symm herr
      Dialect.letters op
    rw [List.nil_append, Dialect.letters_canonical] at hlast
    simpa [LastSet] using hlast

/-- A config whose tokens section sets `plus` to `+`: it is read, `plus` takes the
character of that line and every other opcode keeps its letter. -/
theorem parseConfig_ok_iff_grammar_plus :
    parseConfig "[tokens]\nplus = +\n" = .ok (Dialect.letters.withCanonical .plus '+') ∧
      ∀ op, (∃ k, SetsAt (Text.contentLines "[tokens]\nplus = +\n".toList) k op
            ((Dialect.letters.withCanonical .plus '+').canonical op) ∧
          ∀ k' c, SetsAt (Text.contentLines "[tokens]\nplus = +\n".toList) k' op c → k' ≤ k) ∨
        ((∀ k c, ¬SetsAt (Text.contentLines "[tokens]\nplus = +\n".toList) k op c) ∧
          (Dialect.letters.withCanonical .plus '+').canonical op = op.defaultCanonical) :=
  have hparse : parseConfig "[tokens]\nplus = +\n" =
      .ok (Dialect.letters.withCanonical .plus '+') := by decide
  ⟨hparse, (parseConfig_ok_iff_grammar _).2 _ hparse⟩

end BrainfuckDialect
