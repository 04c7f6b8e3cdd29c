import BrainfuckDialect.Dialect
import BrainfuckDialect.Proofs.TableBuild
import BrainfuckDialect.Proofs.DocumentTranslation

/-!
# The tables of a dialect

A dialect's table binds each opcode's canonical character and fixed synonyms to the
canonical. This module locates every entry of such a table in one opcode's group,
connects the strict table to the strict build of the groups, shows that the letters
dialect is accepted by the strict checks with the table it already has, and that a
dialect none of whose canonicals is a line feed gives tables that leave line feeds
alone.
-/

namespace BrainfuckDialect
namespace Dialect

open SymbolTable

/-- No fixed synonym is a line feed. -/
theorem newline_not_mem_synonyms (op : Opcode) : '\n' ∉ op.synonyms := by
  cases op <;> decide

theorem mem_groups {d : Dialect} {g : SynonymGroup} :
    g ∈ d.groups ↔ ∃ op, g = d.group op := by
  simp only [groups, List.mem_map]
  constructor
  · rintro ⟨op, -, rfl⟩
    exact ⟨op, rfl⟩
  · rintro ⟨op, rfl⟩
    exact ⟨op, Opcode.mem_all op, rfl⟩

/-- Every entry of a dialect's table maps the canonical or a fixed synonym of one
opcode to that opcode's canonical. -/
theorem get_table_eq_some {d : Dialect} {c x : Char} (h : d.table.get c = some x) :
    ∃ op, x = d.canonical op ∧ (c = d.canonical op ∨ c ∈ op.synonyms) := by
  obtain ⟨g, hg, hc, rfl⟩ := get_build_eq_some h
  obtain ⟨op, rfl⟩ := mem_groups.1 hg
  exact ⟨op, rfl, List.mem_cons.1 hc⟩

/-- A strict table that exists is the strict build of the dialect's groups. -/
theorem buildStrict_of_strictTable {d : Dialect} {t : SymbolTable}
    (h : d.strictTable = .ok t) :
    buildStrict d.groups = .ok t := by
  unfold strictTable at h
  cases hv : d.validate with
  | error c => rw [hv] at h; cases h
  | ok u => rw [hv] at h; exact h

/-- A strict table that exists is the dialect's table. -/
theorem eq_table_of_strictTable {d : Dialect} {t : SymbolTable}
    (h : d.strictTable = .ok t) :
    t = d.table :=
  eq_build_of_buildStrict (buildStrict_of_strictTable h)

/-- The letters dialect passes the strict checks, with the table it already has. -/
theorem letters_strictTable : letters.strictTable = .ok letters.table := by
  have hvalid : letters.validate = .ok () := rfl
  have hfree : ConflictFree (SynonymGroup.flatten letters.groups) := by decide
  rw [strictTable, hvalid]
  exact insertAllStrict_of_consistent ((consistent_empty_iff _).2 hfree)

/-- A dialect none of whose canonicals is a line feed has a table that leaves line
feeds alone. -/
theorem keepsLineFeeds_table {d : Dialect} (h : ∀ op, d.canonical op ≠ '\n') :
    d.table.KeepsLineFeeds := by
  constructor
  · cases hget : d.table.get '\n' with
    | none => rfl
    | some x =>
        obtain ⟨op, -, hc⟩ := get_table_eq_some hget
        rcases hc with hc | hc
        · exact absurd hc.symm (h op)
        · exact absurd hc (newline_not_mem_synonyms op)
  · intro c hget
    obtain ⟨op, hx, -⟩ := get_table_eq_some hget
    exact h op hx.symm

end Dialect
end BrainfuckDialect
