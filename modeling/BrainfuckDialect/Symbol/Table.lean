import BrainfuckDialect.Conflict
import BrainfuckDialect.Log
import BrainfuckDialect.Symbol.Group

/-!
# Symbol tables

A symbol table maps source characters to their targets. It is kept as a list of entries
sorted strictly by source character, so two tables with the same bindings are equal
and the entries come out in code point order.

A table is built from synonym groups by adding their bindings in flattening order.
`build` lets a later binding replace an earlier one and reports each such rebinding;
`buildStrict` refuses the first binding that would replace a different target. Main
facts: inserting keeps the entries sorted, and `get` after `insert` sees the new
binding.
-/

namespace BrainfuckDialect

/-- Entries strictly increasing in their source character. -/
def EntriesSorted (es : List (Char × Char)) : Prop :=
  es.Pairwise (fun a b => a.1 < b.1)

/-- Put `(s, t)` into sorted entries, replacing the entry of `s` if there is one. -/
def insertEntry (s t : Char) : List (Char × Char) → List (Char × Char)
  | [] => [(s, t)]
  | e :: rest =>
    if s < e.1 then (s, t) :: e :: rest
    else if s = e.1 then (s, t) :: rest
    else e :: insertEntry s t rest

theorem mem_insertEntry {s t : Char} {es : List (Char × Char)} {e : Char × Char}
    (h : e ∈ insertEntry s t es) : e = (s, t) ∨ e ∈ es := by
  induction es with
  | nil => simp [insertEntry] at h; exact Or.inl h
  | cons x rest ih =>
    simp only [insertEntry] at h
    split at h
    · simp only [List.mem_cons] at h
      rcases h with h | h | h
      · exact Or.inl h
      · exact Or.inr (by simp [h])
      · exact Or.inr (by simp [h])
    · split at h
      · simp only [List.mem_cons] at h
        rcases h with h | h
        · exact Or.inl h
        · exact Or.inr (by simp [h])
      · simp only [List.mem_cons] at h
        rcases h with h | h
        · exact Or.inr (by simp [h])
        · rcases ih h with h' | h'
          · exact Or.inl h'
          · exact Or.inr (by simp [h'])

theorem insertEntry_sorted (s t : Char) {es : List (Char × Char)} (h : EntriesSorted es) :
    EntriesSorted (insertEntry s t es) := by
  induction es with
  | nil => simp [insertEntry, EntriesSorted]
  | cons x rest ih =>
    unfold EntriesSorted at h ⊢
    rw [List.pairwise_cons] at h
    obtain ⟨hx, hrest⟩ := h
    simp only [insertEntry]
    split
    · rename_i hlt
      refine List.Pairwise.cons ?_ (List.Pairwise.cons hx hrest)
      intro b hb
      simp only [List.mem_cons] at hb
      rcases hb with hb | hb
      · rw [hb]; exact hlt
      · exact Char.lt_trans hlt (hx b hb)
    · split
      · rename_i _ heq
        refine List.Pairwise.cons ?_ hrest
        intro b hb
        rw [heq]; exact hx b hb
      · rename_i hlt hne
        have hle : x.1 ≤ s := Char.not_lt.mp hlt
        have hgt : x.1 < s := by
          by_cases h' : x.1 < s
          · exact h'
          · exact absurd (Char.le_antisymm (Char.not_lt.mp h') hle) hne
        refine List.Pairwise.cons ?_ (ih hrest)
        intro b hb
        rcases mem_insertEntry hb with hb | hb
        · rw [hb]; exact hgt
        · exact hx b hb

/-- Looking a character up after an insertion sees the inserted entry for its source
and the old entries for every other character. -/
theorem find?_insertEntry (s t c : Char) (es : List (Char × Char)) :
    (insertEntry s t es).find? (fun e => e.1 == c) =
      if s = c then some (s, t) else es.find? (fun e => e.1 == c) := by
  induction es with
  | nil => by_cases h : s = c <;> simp [insertEntry, h]
  | cons e rest ih =>
    simp only [insertEntry]
    split
    · by_cases h : s = c <;> simp [List.find?_cons, h]
    · split
      · rename_i _ heq
        by_cases h : s = c
        · simp [h]
        · have he : (e.1 == c) = false := by simp [← heq, h]
          simp [h, he]
      · rename_i _ hne
        by_cases h : s = c
        · have he : (e.1 == c) = false := by
            simp only [beq_eq_false_iff_ne]
            intro h'
            exact hne (h.trans h'.symm)
          subst h
          simp [he, ih]
        · simp [List.find?_cons, ih, h]

/-- A map from source characters to targets, with entries sorted by source. -/
structure SymbolTable where
  entries : List (Char × Char)
  sorted : EntriesSorted entries

namespace SymbolTable

/-- The table with no entries. -/
def empty : SymbolTable := ⟨[], List.Pairwise.nil⟩

instance : Inhabited SymbolTable := ⟨empty⟩

/-- The target bound to `c`, if any. -/
def get (t : SymbolTable) (c : Char) : Option Char :=
  (t.entries.find? (fun e => e.1 == c)).map Prod.snd

/-- The target bound to `c`, or `c` itself when nothing is bound to it. -/
def mapChar (t : SymbolTable) (c : Char) : Char :=
  (t.get c).getD c

/-- The number of bound source characters. -/
def size (t : SymbolTable) : Nat :=
  t.entries.length

/-- Whether no character is bound. -/
def isEmpty (t : SymbolTable) : Bool :=
  t.entries.isEmpty

/-- Bind `s` to `target`, replacing any earlier binding of `s`. -/
def insert (t : SymbolTable) (s target : Char) : SymbolTable :=
  ⟨insertEntry s target t.entries, insertEntry_sorted s target t.sorted⟩

/-- Add bindings in order; a later binding of a character replaces an earlier one. -/
def insertAll (t : SymbolTable) (bs : List Binding) : SymbolTable :=
  bs.foldl (fun acc b => acc.insert b.source b.target) t

/-- The table of a list of groups in which the last binding of a character wins. -/
def build (gs : List SynonymGroup) : SymbolTable :=
  empty.insertAll (SynonymGroup.flatten gs)

/-- A binding that replaced a different earlier target. -/
structure Rebinding where
  symbol : Char
  previous : Char
  target : Char
  deriving DecidableEq, Repr

/-- The rebindings met while adding `bs` to `t` in order. -/
def rebindingsFrom (t : SymbolTable) : List Binding → List Rebinding
  | [] => []
  | b :: bs =>
    let rest := rebindingsFrom (t.insert b.source b.target) bs
    match t.get b.source with
    | some p => if p = b.target then rest else ⟨b.source, p, b.target⟩ :: rest
    | none => rest

/-- The rebindings met while building the table of `gs`, in flattening order. -/
def rebindings (gs : List SynonymGroup) : List Rebinding :=
  rebindingsFrom empty (SynonymGroup.flatten gs)

/-- Add bindings in order, failing at the first one that would replace a different
target. -/
def insertAllStrict (t : SymbolTable) : List Binding → Except Conflict SymbolTable
  | [] => .ok t
  | b :: bs =>
    match t.get b.source with
    | some p =>
      if p = b.target then insertAllStrict (t.insert b.source b.target) bs
      else .error (.ambiguousSynonym b.source p b.target)
    | none => insertAllStrict (t.insert b.source b.target) bs

/-- The table of a list of groups, or the first character bound to two targets. -/
def buildStrict (gs : List SynonymGroup) : Except Conflict SymbolTable :=
  empty.insertAllStrict (SynonymGroup.flatten gs)

/-- The warning reported for a rebinding. -/
def Rebinding.record (r : Rebinding) : Record :=
  let symbol := r.symbol
  let previous := r.previous
  let target := r.target
  .warn s!"symbol '{symbol}' rebound from '{previous}' to '{target}'"

/-- The records of `build gs`: one warning per rebinding, then the size of the table. -/
def buildRecords (gs : List SynonymGroup) : List Record :=
  let n := (build gs).size
  (rebindings gs).map Rebinding.record ++ [.debug s!"symbol table built with {n} entries"]

/-- The records of `buildStrict gs`: the size of the table when it succeeds. -/
def buildStrictRecords (gs : List SynonymGroup) : List Record :=
  match buildStrict gs with
  | .ok t =>
    let n := t.size
    [.debug s!"symbol table built with {n} entries (strict)"]
  | .error _ => []

@[simp] theorem get_empty (c : Char) : empty.get c = none := rfl

@[simp] theorem get_insert (t : SymbolTable) (s x c : Char) :
    (t.insert s x).get c = if s = c then some x else t.get c := by
  simp only [get, insert, find?_insertEntry]
  split <;> rfl

theorem mapChar_eq (t : SymbolTable) (c : Char) : t.mapChar c = (t.get c).getD c := rfl

end SymbolTable
end BrainfuckDialect
