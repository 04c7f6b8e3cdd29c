import BrainfuckDialect.Translate.Line
import BrainfuckDialect.Proofs.Lines

/-!
# Translating one line

A line is translated character by character up to its first comment marker `//` and
kept as it is from there on. This module states that rule position by position, with
the marker located declaratively (`BeforeMarker`), and proves the two facts about it
that documents need: translating twice is translating once when the table's character
map is idempotent, and a table that neither creates nor removes line feeds keeps the
line feeds of every line where they are.

All proofs follow `splitComment.induct`: the empty line, a line that starts with the
marker, and a line that starts with any other character.
-/

namespace BrainfuckDialect

/-- The comment marker `//` starts at position `k` of a line. -/
def MarkerAt (cs : List Char) (k : Nat) : Prop :=
  cs[k]? = some '/' ∧ cs[k + 1]? = some '/'

instance (cs : List Char) (k : Nat) : Decidable (MarkerAt cs k) :=
  inferInstanceAs (Decidable (_ ∧ _))

/-- Position `j` of a line lies before its first comment marker; every position does
when the line has none. -/
def BeforeMarker (cs : List Char) (j : Nat) : Prop :=
  ∀ k, k ≤ j → ¬MarkerAt cs k

instance (cs : List Char) (j : Nat) : Decidable (BeforeMarker cs j) :=
  inferInstanceAs (Decidable (∀ k, k ≤ j → ¬MarkerAt cs k))

theorem not_markerAt_zero {c : Char} {rest : List Char}
    (h : ∀ r, c = '/' → rest = '/' :: r → False) :
    ¬MarkerAt (c :: rest) 0 := by
  rintro ⟨hc, hr⟩
  cases rest with
  | nil => simp at hr
  | cons d r =>
      simp only [List.getElem?_cons_succ, List.getElem?_cons_zero, Option.some.injEq] at hc hr
      exact h r hc (by rw [hr])

theorem markerAt_cons_succ (c : Char) (cs : List Char) (k : Nat) :
    MarkerAt (c :: cs) (k + 1) ↔ MarkerAt cs k := by
  simp [MarkerAt]

theorem beforeMarker_zero (cs : List Char) : BeforeMarker cs 0 ↔ ¬MarkerAt cs 0 := by
  constructor
  · intro h
    exact h 0 (Nat.le_refl 0)
  · intro h k hk
    rw [Nat.le_zero.mp hk]
    exact h

theorem beforeMarker_cons_succ (c : Char) (cs : List Char) (j : Nat) :
    BeforeMarker (c :: cs) (j + 1) ↔ ¬MarkerAt (c :: cs) 0 ∧ BeforeMarker cs j := by
  constructor
  · intro h
    refine ⟨h 0 (Nat.zero_le _), ?_⟩
    intro k hk
    rw [← markerAt_cons_succ c]
    exact h (k + 1) (Nat.succ_le_succ hk)
  · rintro ⟨h0, h⟩ k hk
    cases k with
    | zero => exact h0
    | succ k =>
        rw [markerAt_cons_succ]
        exact h k (Nat.le_of_succ_le_succ hk)

/-- No position is before the marker of a line that starts with it. -/
theorem not_beforeMarker_marker (rest : List Char) (j : Nat) :
    ¬BeforeMarker ('/' :: '/' :: rest) j := by
  intro h
  exact h 0 (Nat.zero_le j) ⟨rfl, rfl⟩

namespace SymbolTable

variable (t : SymbolTable)

@[simp] theorem translateChars_nil : t.translateChars [] = [] := rfl

@[simp] theorem translateChars_marker (rest : List Char) :
    t.translateChars ('/' :: '/' :: rest) = '/' :: '/' :: rest := rfl

theorem translateChars_cons {c : Char} {rest : List Char} (h : ¬MarkerAt (c :: rest) 0) :
    t.translateChars (c :: rest) = t.mapChar c :: t.translateChars rest := by
  have hsplit : ∀ r, c = '/' → rest = '/' :: r → False := by
    rintro r rfl rfl
    exact h ⟨rfl, rfl⟩
  simp [translateChars, splitComment.eq_3 c rest hsplit]

theorem toList_translateLine (line : String) :
    (t.translateLine line).toList = t.translateChars line.toList :=
  String.toList_ofList

@[simp] theorem length_translateChars (cs : List Char) :
    (t.translateChars cs).length = cs.length := by
  induction cs using splitComment.induct with
  | case1 => rfl
  | case2 rest => rfl
  | case3 c rest h ih =>
      rw [translateChars_cons t (not_markerAt_zero h), List.length_cons, ih,
        List.length_cons]

/-- Character `j` of a translated line is the mapped character `j` of the line before
the first comment marker, and the character itself from the marker on. -/
theorem getElem?_translateChars (cs : List Char) (j : Nat) :
    (t.translateChars cs)[j]? =
      cs[j]?.map (fun c => if BeforeMarker cs j then t.mapChar c else c) := by
  induction cs using splitComment.induct generalizing j with
  | case1 => rfl
  | case2 rest =>
      rw [translateChars_marker]
      cases h : ('/' :: '/' :: rest)[j]? with
      | none => rfl
      | some c => simp [not_beforeMarker_marker rest j]
  | case3 c rest h ih =>
      have h0 := not_markerAt_zero h
      rw [translateChars_cons t h0]
      cases j with
      | zero => simp [(beforeMarker_zero _).2 h0]
      | succ j =>
          rw [List.getElem?_cons_succ, List.getElem?_cons_succ, ih j]
          simp only [beforeMarker_cons_succ, h0, not_false_eq_true, true_and]

/-- Translating a translated line changes nothing when mapping a mapped character
changes nothing. A mapped character may be `/`, so the second pass can find a marker
earlier than the first did; everything before it was already mapped. -/
theorem translateChars_translateChars
    (hm : ∀ c, t.mapChar (t.mapChar c) = t.mapChar c) (cs : List Char) :
    t.translateChars (t.translateChars cs) = t.translateChars cs := by
  induction cs using splitComment.induct with
  | case1 => rfl
  | case2 rest => rfl
  | case3 c rest h ih =>
      rw [translateChars_cons t (not_markerAt_zero h)]
      by_cases hmk : MarkerAt (t.mapChar c :: t.translateChars rest) 0
      · obtain ⟨hc, hnext⟩ := hmk
        simp only [List.getElem?_cons_zero, Option.some.injEq] at hc
        obtain ⟨r, hr⟩ : ∃ r, t.translateChars rest = '/' :: r := by
          cases hrest : t.translateChars rest with
          | nil => simp [hrest] at hnext
          | cons d r =>
              simp only [hrest, List.getElem?_cons_succ, List.getElem?_cons_zero,
                Option.some.injEq] at hnext
              exact ⟨r, by rw [hnext]⟩
        rw [hc, hr, translateChars_marker]
      · rw [translateChars_cons t hmk, hm, ih]

theorem translateLine_translateLine
    (hm : ∀ c, t.mapChar (t.mapChar c) = t.mapChar c) (line : String) :
    t.translateLine (t.translateLine line) = t.translateLine line := by
  rw [translateLine, toList_translateLine, translateChars_translateChars t hm]
  rfl

/-- A table that maps exactly the line feed to a line feed keeps every line feed of a
line where it is. -/
theorem feeds_translateChars (hf : ∀ c, t.mapChar c = '\n' ↔ c = '\n')
    (cs : List Char) :
    Text.feeds (t.translateChars cs) = Text.feeds cs := by
  induction cs using splitComment.induct with
  | case1 => rfl
  | case2 rest => rfl
  | case3 c rest h ih =>
      rw [translateChars_cons t (not_markerAt_zero h)]
      simp only [Text.feeds, List.map_cons] at ih ⊢
      rw [ih]
      have hbeq : (t.mapChar c == '\n') = (c == '\n') := by
        rw [Bool.eq_iff_iff, beq_iff_eq, beq_iff_eq]
        exact hf c
      rw [hbeq]

end SymbolTable
end BrainfuckDialect
