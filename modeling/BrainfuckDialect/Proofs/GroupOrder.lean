import Mathlib
import BrainfuckDialect.Proofs.StrictDialect
import BrainfuckDialect.Proofs.TableContents

/-!
# The strict table does not depend on the order of the groups

`buildStrict` runs over the flattened bindings and stops at the first one that would
replace a different target, so the conflict it reports depends on the order of the groups.
Whether it succeeds does not: it succeeds exactly on conflict-free bindings, and conflict
freedom only asks every two bindings to agree. Nor does the table it builds: a table is
determined by its lookups, since its entries are sorted, and after a conflict-free run a
character is bound to a target exactly when one of the bindings binds it so.
-/

namespace BrainfuckDialect

open SymbolTable

/-! ## A table is determined by its lookups -/

namespace SymbolTable

/-- An entry is in a table exactly when the table looks its source up as its target: the
entry found for a source has that source, and sources are distinct. -/
theorem mem_entries_iff (t : SymbolTable) (e : Char × Char) :
    e ∈ t.entries ↔ t.get e.1 = some e.2 := by
  constructor
  · intro he
    obtain ⟨e', hfind⟩ : ∃ e', t.entries.find? (fun x => x.1 == e.1) = some e' := by
      cases hf : t.entries.find? (fun x => x.1 == e.1) with
      | none =>
          have := List.find?_eq_none.1 hf e he
          simp at this
      | some e' => exact ⟨e', rfl⟩
    have hsource : e'.1 = e.1 := by simpa using List.find?_some hfind
    have heq : e' = e :=
      List.inj_on_of_nodup_map t.nodup_sources (List.mem_of_find?_eq_some hfind) he hsource
    rw [get, hfind, heq, Option.map_some]
  · intro hget
    obtain ⟨e', hfind, htarget⟩ := Option.map_eq_some_iff.1 hget
    have hsource : e'.1 = e.1 := by simpa using List.find?_some hfind
    rw [← Prod.ext hsource htarget]
    exact List.mem_of_find?_eq_some hfind

/-- Two tables with the same lookups are equal: they hold the same entries, and two lists
sorted strictly by one key holding the same entries are equal. -/
theorem ext_get {t t' : SymbolTable} (h : ∀ c, t.get c = t'.get c) : t = t' := by
  have hnodup : ∀ u : SymbolTable, u.entries.Nodup := fun u => u.nodup_sources.of_map _
  have hperm : t.entries.Perm t'.entries := by
    rw [List.perm_ext_iff_of_nodup (hnodup t) (hnodup t')]
    intro e
    rw [mem_entries_iff, mem_entries_iff, h]
  have hentries : t.entries = t'.entries :=
    hperm.eq_of_pairwise
      (fun _ _ _ _ hab hba => absurd (Char.lt_trans hab hba) (Char.lt_irrefl _))
      t.sorted t'.sorted
  cases t
  cases t'
  simp only at hentries
  subst hentries
  rfl

end SymbolTable

/-! ## Reordering the groups -/

theorem ConflictFree.perm_iff {bs bs' : List Binding} (h : bs.Perm bs') :
    ConflictFree bs ↔ ConflictFree bs' :=
  h.pairwise_iff fun hst hs => (hst hs.symm).symm

theorem SynonymGroup.flatten_perm {gs gs' : List SynonymGroup} (h : gs.Perm gs') :
    (SynonymGroup.flatten gs).Perm (SynonymGroup.flatten gs') :=
  h.flatMap_right _

theorem buildStrict_isOk_iff_of_perm {gs gs' : List SynonymGroup} (h : gs.Perm gs') :
    (∃ t, buildStrict gs = .ok t) ↔ ∃ t, buildStrict gs' = .ok t := by
  rw [buildStrict_isOk_iff, buildStrict_isOk_iff]
  exact ConflictFree.perm_iff (SynonymGroup.flatten_perm h)

theorem eq_of_buildStrict_of_perm {gs gs' : List SynonymGroup} {t t' : SymbolTable}
    (h : gs.Perm gs') (ht : buildStrict gs = .ok t) (ht' : buildStrict gs' = .ok t') :
    t = t' := by
  have hfree := (buildStrict_isOk_iff gs).1 ⟨t, ht⟩
  have hfree' := (buildStrict_isOk_iff gs').1 ⟨t', ht'⟩
  rw [eq_build_of_buildStrict ht, eq_build_of_buildStrict ht']
  apply ext_get
  intro c
  apply Option.ext
  intro x
  rw [build, build, get_insertAll_eq_some_iff hfree, get_insertAll_eq_some_iff hfree']
  exact (SynonymGroup.flatten_perm h).mem_iff

/-- A strict build that succeeds gives the same table from the groups in any order. -/
theorem buildStrict_of_perm {gs gs' : List SynonymGroup} {t : SymbolTable}
    (h : gs.Perm gs') (ht : buildStrict gs = .ok t) :
    buildStrict gs' = .ok t := by
  obtain ⟨t', ht'⟩ := (buildStrict_isOk_iff_of_perm h).1 ⟨t, ht⟩
  rw [ht', eq_of_buildStrict_of_perm h ht ht']

/-- The strict table of a well-formed dialect is the strict build of its groups taken in
any order of the opcodes. -/
theorem Dialect.strictTable_eq_ok_iff_of_perm {d : Dialect} {ops : List Opcode}
    (hops : ops.Perm Opcode.all) (hv : d.validate = .ok ()) (t : SymbolTable) :
    d.strictTable = .ok t ↔ buildStrict (ops.map d.group) = .ok t := by
  have hperm : d.groups.Perm (ops.map d.group) := (hops.map d.group).symm
  rw [Dialect.strictTable_of_validate_ok hv]
  exact ⟨buildStrict_of_perm hperm, buildStrict_of_perm hperm.symm⟩

/-- Whether the strict build succeeds, and the table it builds, do not depend on the order
of the groups. So the strict table of a well-formed dialect is the same for every order of
the opcodes, although the conflict reported when it fails is not: with `plus` set to `I`,
a synonym of `minus`, the build in `Opcode.all` order and the one with `minus` first stop
at `I` with the two targets the other way round. -/
theorem buildStrict_order_independent :
    (∀ gs gs' : List SynonymGroup, gs.Perm gs' →
      ((∃ t, buildStrict gs = .ok t) ↔ ∃ t, buildStrict gs' = .ok t) ∧
        ∀ t t', buildStrict gs = .ok t → buildStrict gs' = .ok t' → t = t') ∧
    (∀ (d : Dialect) (ops : List Opcode), ops.Perm Opcode.all → d.validate = .ok () →
      ∀ t, d.strictTable = .ok t ↔ buildStrict (ops.map d.group) = .ok t) ∧
    ∃ (d : Dialect) (ops : List Opcode), ops.Perm Opcode.all ∧ d.validate = .ok () ∧
      ∃ e e', d.strictTable = .error e ∧ buildStrict (ops.map d.group) = .error e' ∧
        e ≠ e' := by
  refine ⟨fun gs gs' h => ⟨buildStrict_isOk_iff_of_perm h,
      fun t t' ht ht' => eq_of_buildStrict_of_perm h ht ht'⟩,
    fun d ops hops hv => Dialect.strictTable_eq_ok_iff_of_perm hops hv, ?_⟩
  let d := Dialect.letters.withCanonical .plus 'I'
  let ops := [Opcode.minus, .plus, .previous, .next, .output, .input, .loopStart, .loopEnd,
    .breakpoint]
  have hops : ops.Perm Opcode.all := List.Perm.swap _ _ _
  have hv : d.validate = .ok () := rfl
  have herr : d.strictTable = .error (.ambiguousSynonym 'I' 'I' 'i') := rfl
  have herr' : buildStrict (ops.map d.group) = .error (.ambiguousSynonym 'I' 'i' 'I') := rfl
  exact ⟨d, ops, hops, hv, _, _, herr, herr', by decide⟩

/-- The letters dialect's groups and the same groups in reverse order build one strict
table. -/
theorem buildStrict_order_independent_letters_reversed :
    Dialect.letters.groups.Perm Dialect.letters.groups.reverse ∧
      ((∃ t, buildStrict Dialect.letters.groups = .ok t) ↔
        ∃ t, buildStrict Dialect.letters.groups.reverse = .ok t) ∧
      ∀ t t', buildStrict Dialect.letters.groups = .ok t →
        buildStrict Dialect.letters.groups.reverse = .ok t' → t = t' :=
  have hperm : Dialect.letters.groups.Perm Dialect.letters.groups.reverse :=
    (List.reverse_perm _).symm
  ⟨hperm, buildStrict_order_independent.1 _ _ hperm⟩

end BrainfuckDialect
