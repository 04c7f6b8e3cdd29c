import Mathlib
import BrainfuckDialect.Proofs.DocumentTranslation

/-!
# A document and its text

`Document.ofText` cuts a text right after every line feed and `Document.toText` joins the
lines again. The two are inverse: joining the lines of a text gives the text back, the
lines have the shape of a cut text (none empty, a line feed only as the last character,
and one at the end of every line but the last), and lines of that shape are cut back into
themselves. A text has one line per line feed, and one more when it ends in a last piece
without one.
-/

namespace BrainfuckDialect
namespace Text

theorem splitLines_eq_nil_iff (cs : List Char) : splitLines cs = [] ↔ cs = [] := by
  constructor
  · intro h
    rw [← flatten_splitLines cs, h, List.flatten_nil]
  · rintro rfl
    rfl

/-- Whether a text ends in a last piece without a line feed does not change when a line
feed is put in front of it, nor when any character is put in front of a text that is not
empty. -/
theorem endsOpen_newline_cons (cs : List Char) :
    ('\n' :: cs ≠ [] ∧ ('\n' :: cs).getLast? ≠ some '\n') ↔
      (cs ≠ [] ∧ cs.getLast? ≠ some '\n') := by
  by_cases hcs : cs = []
  · simp [hcs]
  · simp [hcs, List.getLast?_cons_of_ne_nil hcs]

theorem endsOpen_cons_of_ne_nil (c : Char) {cs : List Char} (hcs : cs ≠ []) :
    (c :: cs ≠ [] ∧ (c :: cs).getLast? ≠ some '\n') ↔
      (cs ≠ [] ∧ cs.getLast? ≠ some '\n') := by
  simp [hcs, List.getLast?_cons_of_ne_nil hcs]

/-- A text has one line per line feed, and one more when it is not empty and does not end
in a line feed. By induction over the text: a line feed is a line of its own before the
lines of the rest, and any other character is the whole text or joins the first line of
the rest. -/
theorem length_splitLines (cs : List Char) :
    (splitLines cs).length =
      cs.count '\n' + if cs ≠ [] ∧ cs.getLast? ≠ some '\n' then 1 else 0 := by
  induction cs with
  | nil => rfl
  | cons c cs ih =>
      by_cases hc : c = '\n'
      · subst hc
        rw [splitLines, if_pos rfl, List.length_cons, ih, List.count_cons_self]
        simp only [endsOpen_newline_cons]
        omega
      · rw [splitLines, if_neg hc, List.count_cons_of_ne hc]
        cases hsplit : splitLines cs with
        | nil =>
            obtain rfl := (splitLines_eq_nil_iff cs).1 hsplit
            simp [hc]
        | cons l ls =>
            have hcs : cs ≠ [] := by
              rintro rfl
              simp [splitLines] at hsplit
            rw [hsplit, List.length_cons] at ih
            rw [List.length_cons, ih]
            simp only [endsOpen_cons_of_ne_nil c hcs]

/-- The shape of cut lines, line by line: none is empty, none has a line feed before its
last character, and every line but the last ends in a line feed. -/
theorem lineShaped_iff (ls : List (List Char)) :
    LineShaped ls ↔
      (∀ l ∈ ls, l ≠ [] ∧ '\n' ∉ l.dropLast) ∧
        ∀ l ∈ ls.dropLast, l.getLast? = some '\n' := by
  induction ls with
  | nil => simp [LineShaped]
  | cons l ls ih =>
      cases ls with
      | nil => simp [LineShaped]
      | cons l' ls =>
          rw [LineShaped, ih, List.dropLast_cons_cons]
          constructor
          · rintro ⟨hlast, hbody, hrest, hlasts⟩
            have hne : l ≠ [] := by
              rintro rfl
              simp at hlast
            exact ⟨List.forall_mem_cons.2 ⟨⟨hne, hbody⟩, hrest⟩,
              List.forall_mem_cons.2 ⟨hlast, hlasts⟩⟩
          · rintro ⟨hall, hlasts⟩
            obtain ⟨⟨-, hbody⟩, hrest⟩ := List.forall_mem_cons.1 hall
            obtain ⟨hlast, hlasts⟩ := List.forall_mem_cons.1 hlasts
            exact ⟨hlast, hbody, hrest, hlasts⟩

end Text

namespace Document

/-- The shape of cut lines, on the lines of a document. -/
theorem lineShaped_map_toList_iff (lines : List String) :
    Text.LineShaped (lines.map String.toList) ↔
      (∀ l ∈ lines, l ≠ "" ∧ '\n' ∉ l.toList.dropLast) ∧
        ∀ l ∈ lines.dropLast, l.toList.getLast? = some '\n' := by
  rw [Text.lineShaped_iff, ← List.map_dropLast]
  simp only [List.mem_map, forall_exists_index, and_imp, forall_apply_eq_imp_iff₂, ne_eq,
    String.toList_eq_nil_iff]

theorem toText_ofText (s : String) : (ofText s).toText = s :=
  String.ext (by rw [toList_toText, flatten_map_toList_ofText])

theorem lineShaped_ofText (s : String) :
    Text.LineShaped ((ofText s).lines.map String.toList) := by
  rw [map_toList_ofText]
  exact Text.lineShaped_splitLines s.toList

theorem size_ofText (s : String) :
    (ofText s).size =
      s.toList.count '\n' + if s ≠ "" ∧ s.toList.getLast? ≠ some '\n' then 1 else 0 := by
  have hlen : (ofText s).size = (Text.splitLines s.toList).length := by
    rw [size, ← map_toList_ofText, List.length_map]
  rw [hlen, Text.length_splitLines]
  simp only [ne_eq, String.toList_eq_nil_iff]

theorem isEmpty_ofText_iff (s : String) : (ofText s).isEmpty = true ↔ s = "" := by
  rw [isEmpty, List.isEmpty_iff, ofText, List.map_eq_nil_iff, Text.splitLines_eq_nil_iff,
    String.toList_eq_nil_iff]

/-- Lines of the shape of a cut text are the lines of the text they join into. -/
theorem lines_ofText_join {lines : List String}
    (h : Text.LineShaped (lines.map String.toList)) :
    (ofText (String.join lines)).lines = lines := by
  have hjoin : (String.join lines).toList = (lines.map String.toList).flatten := by
    rw [String.toList_join, List.flatMap_def]
  have hid : String.ofList ∘ String.toList = id := funext fun _ => String.ofList_toList
  show (Text.splitLines (String.join lines).toList).map String.ofList = lines
  rw [hjoin, Text.splitLines_flatten h, List.map_map, hid, List.map_id]

/-- Cutting a text into lines and joining them gives the text back. The lines are not
empty, hold a line feed at most as their last character, and all but the last end in one;
there is one line per line feed, and one more when the text is not empty and does not end
in a line feed, so only the empty text has no lines. Conversely, lines of that shape are
the lines of the text they join into. -/
theorem ofText_toText_round_trip :
    (∀ s : String, (ofText s).toText = s) ∧
    (∀ s : String,
      (∀ l ∈ (ofText s).lines, l ≠ "" ∧ '\n' ∉ l.toList.dropLast) ∧
        ∀ l ∈ (ofText s).lines.dropLast, l.toList.getLast? = some '\n') ∧
    (∀ s : String, (ofText s).size =
      s.toList.count '\n' + if s ≠ "" ∧ s.toList.getLast? ≠ some '\n' then 1 else 0) ∧
    (∀ s : String, (ofText s).isEmpty = true ↔ s = "") ∧
    ∀ lines : List String,
      (∀ l ∈ lines, l ≠ "" ∧ '\n' ∉ l.toList.dropLast) →
      (∀ l ∈ lines.dropLast, l.toList.getLast? = some '\n') →
      (ofText (String.join lines)).lines = lines := by
  refine ⟨toText_ofText, fun s => (lineShaped_map_toList_iff _).1 (lineShaped_ofText s),
    size_ofText, isEmpty_ofText_iff, ?_⟩
  intro lines hlines hlast
  exact lines_ofText_join ((lineShaped_map_toList_iff lines).2 ⟨hlines, hlast⟩)

/-- The lines `+` CR LF, `-` LF and `>` have the shape of cut lines, and joining and
cutting them gives them back. -/
theorem ofText_toText_round_trip_terminators :
    (∀ l ∈ ["+\r\n", "-\n", ">"], l ≠ "" ∧ '\n' ∉ l.toList.dropLast) ∧
      (∀ l ∈ ["+\r\n", "-\n", ">"].dropLast, l.toList.getLast? = some '\n') ∧
      (ofText (String.join ["+\r\n", "-\n", ">"])).lines = ["+\r\n", "-\n", ">"] :=
  have hlines : ∀ l ∈ ["+\r\n", "-\n", ">"], l ≠ "" ∧ '\n' ∉ l.toList.dropLast := by
    decide
  have hlast : ∀ l ∈ ["+\r\n", "-\n", ">"].dropLast, l.toList.getLast? = some '\n' := by
    decide
  ⟨hlines, hlast, ofText_toText_round_trip.2.2.2.2 _ hlines hlast⟩

end Document
end BrainfuckDialect
