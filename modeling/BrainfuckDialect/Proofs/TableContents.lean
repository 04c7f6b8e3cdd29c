import Mathlib
import BrainfuckDialect.Proofs.TableBuild

/-!
# What a lenient table holds

`build` adds the bindings of its groups one after another, and a later binding of a
character replaces an earlier one. This module describes the result without the run.
A run binds a character to the target of its last binding (`get_insertAll`); for a table
built from groups that is the canonical of the last group declaring the character
(`get_build`). So the table has one entry per declared character (`size_build`), and the
build warns, in flattening order, about exactly those bindings whose character was last
bound to another target (`rebindings_eq_filterMap`).
-/

namespace BrainfuckDialect

open SymbolTable

/-- The target of the last binding of `c`, if there is one. -/
def lastTarget (bs : List Binding) (c : Char) : Option Char :=
  (bs.reverse.find? (fun b => b.source == c)).map Binding.target

/-- The rebinding reported when `b` is added while its source is bound to `bound`: one
when the source is bound to another target, none otherwise. -/
def rebindingOf (bound : Option Char) (b : Binding) : Option Rebinding :=
  bound.bind fun p => if p = b.target then none else some ⟨b.source, p, b.target⟩

@[simp] theorem lastTarget_nil (c : Char) : lastTarget [] c = none := rfl

/-- A later binding hides the earlier ones. -/
theorem lastTarget_append (bs bs' : List Binding) (c : Char) :
    lastTarget (bs ++ bs') c = (lastTarget bs' c).or (lastTarget bs c) := by
  simp only [lastTarget, List.reverse_append, List.find?_append, Option.map_or]

theorem lastTarget_cons (b : Binding) (bs : List Binding) (c : Char) :
    lastTarget (b :: bs) c =
      (lastTarget bs c).or (if b.source = c then some b.target else none) := by
  rw [← List.singleton_append, lastTarget_append]
  by_cases h : b.source = c <;> simp [lastTarget, h]

/-- After a run a character is bound to the target of its last binding in the run, and
as before the run when the run does not bind it. -/
theorem get_insertAll (t : SymbolTable) (bs : List Binding) (c : Char) :
    (t.insertAll bs).get c = (lastTarget bs c).or (t.get c) := by
  induction bs generalizing t with
  | nil => simp
  | cons b bs ih =>
      rw [insertAll_cons, ih, lastTarget_cons, Option.or_assoc, get_insert]
      by_cases h : b.source = c <;> simp [h]

/-- Within one group every member is bound to the canonical. -/
theorem lastTarget_bindings (g : SynonymGroup) (c : Char) :
    lastTarget g.bindings c = if c ∈ g.members then some g.canonical else none := by
  simp only [lastTarget, SynonymGroup.bindings, ← List.map_reverse, List.find?_map,
    Option.map_map]
  cases hfind : g.members.reverse.find? ((fun b : Binding => b.source == c) ∘
      fun s => ⟨s, g.canonical⟩) with
  | none =>
      have hc : c ∉ g.members := by
        intro hc
        have := List.find?_eq_none.1 hfind c (List.mem_reverse.2 hc)
        simp at this
      simp [hc]
  | some s =>
      have hs : s = c := by simpa using List.find?_some hfind
      have hc : c ∈ g.members := List.mem_reverse.1 (hs ▸ List.mem_of_find?_eq_some hfind)
      simp [hc]

theorem lastTarget_flatten (gs : List SynonymGroup) (c : Char) :
    lastTarget (SynonymGroup.flatten gs) c =
      (gs.reverse.find? (fun g => c ∈ g.members)).map SynonymGroup.canonical := by
  induction gs with
  | nil => rfl
  | cons g gs ih =>
      rw [SynonymGroup.flatten_cons, lastTarget_append, ih, lastTarget_bindings,
        List.reverse_cons, List.find?_append, Option.map_or]
      by_cases h : c ∈ g.members <;> simp [h]

/-- A character is bound to the canonical of the last group that declares it, and to
nothing when no group declares it. -/
theorem get_build (gs : List SynonymGroup) (c : Char) :
    (build gs).get c =
      (gs.reverse.find? (fun g => c ∈ g.members)).map SynonymGroup.canonical := by
  rw [build, get_insertAll, get_empty, Option.or_none, lastTarget_flatten]

/-! ## Size -/

theorem SymbolTable.isSome_get_iff (t : SymbolTable) (c : Char) :
    (t.get c).isSome ↔ c ∈ t.entries.map Prod.fst := by
  simp only [get, Option.isSome_map, List.find?_isSome, beq_iff_eq, List.mem_map]

/-- The entries of a table have distinct sources, since they are sorted strictly. -/
theorem SymbolTable.nodup_sources (t : SymbolTable) : (t.entries.map Prod.fst).Nodup := by
  have hsorted : t.entries.Pairwise (fun a b => a.1 < b.1) := t.sorted
  rw [List.Nodup, List.pairwise_map]
  exact hsorted.imp ne_of_lt

/-- The size of a table is the number of characters it binds. -/
theorem SymbolTable.size_eq_card (t : SymbolTable) :
    t.size = (t.entries.map Prod.fst).toFinset.card := by
  rw [List.toFinset_card_of_nodup t.nodup_sources, List.length_map, size]

theorem size_build (gs : List SynonymGroup) :
    (build gs).size = (gs.flatMap SynonymGroup.members).toFinset.card := by
  rw [SymbolTable.size_eq_card]
  congr 1
  ext c
  rw [List.mem_toFinset, List.mem_toFinset, ← SymbolTable.isSome_get_iff, get_build,
    Option.isSome_map, List.find?_isSome]
  simp [List.mem_flatMap]

theorem isEmpty_build_iff (gs : List SynonymGroup) :
    (build gs).isEmpty = true ↔ gs.flatMap SynonymGroup.members = [] := by
  have hsize : (build gs).isEmpty = true ↔ (build gs).size = 0 := by
    simp [SymbolTable.isEmpty, size, List.isEmpty_iff]
  rw [hsize, size_build, Finset.card_eq_zero, List.toFinset_eq_empty_iff]

/-! ## Warnings -/

/-- The step lemma of the lenient run's reports: adding `b` reports at most the
rebinding of its source, and the rest is reported against the table that holds `b`. -/
theorem rebindingsFrom_cons (t : SymbolTable) (b : Binding) (bs : List Binding) :
    t.rebindingsFrom (b :: bs) =
      (rebindingOf (t.get b.source) b).toList ++
        (t.insert b.source b.target).rebindingsFrom bs := by
  simp only [rebindingsFrom, rebindingOf]
  cases t.get b.source with
  | none => rfl
  | some p => by_cases h : p = b.target <;> simp [h]

/-- The run lemma: each binding is reported against the table built from the bindings
before it, so the later bindings are reported against tables that already hold it. -/
theorem rebindingsFrom_eq_filterMap (t : SymbolTable) (bs : List Binding) :
    t.rebindingsFrom bs =
      (bs.inits.zip bs).filterMap fun (before, b) =>
        rebindingOf ((t.insertAll before).get b.source) b := by
  induction bs generalizing t with
  | nil => rfl
  | cons b bs ih =>
      rw [rebindingsFrom_cons, ih, List.inits_cons, List.zip_cons_cons, List.zip_map_left]
      simp only [List.filterMap_cons, List.filterMap_map, insertAll_nil, Function.comp_def,
        Prod.map, id, insertAll_cons]
      cases rebindingOf (t.get b.source) b <;> rfl

/-- The rebindings of a build: in flattening order, each binding whose character was
last bound to another target. -/
theorem rebindings_eq_filterMap (gs : List SynonymGroup) :
    rebindings gs =
      ((SynonymGroup.flatten gs).inits.zip (SynonymGroup.flatten gs)).filterMap
        fun (before, b) => rebindingOf (lastTarget before b.source) b := by
  rw [rebindings, rebindingsFrom_eq_filterMap]
  simp only [get_insertAll, get_empty, Option.or_none]

/-- The warnings of a build are the records of its rebindings. -/
theorem warnings_buildRecords (gs : List SynonymGroup) :
    (buildRecords gs).filter (fun r => r.level == .warn) =
      (rebindings gs).map Rebinding.record := by
  have hwarn : ∀ r : Rebinding, r.record.level = .warn := fun _ => rfl
  simp [buildRecords, List.filter_append, hwarn, Record.debug]

/-- The lenient table binds each character to the canonical of the last group that
declares it, has one entry per declared character, and warns, in flattening order, once
for every binding whose character was last bound to a different target. -/
theorem build_contents (gs : List SynonymGroup) :
    (∀ c, (build gs).get c =
      (gs.reverse.find? (fun g => c ∈ g.members)).map SynonymGroup.canonical) ∧
    (∀ c, (build gs).mapChar c =
      ((gs.reverse.find? (fun g => c ∈ g.members)).map SynonymGroup.canonical).getD c) ∧
    (build gs).size = (gs.flatMap SynonymGroup.members).toFinset.card ∧
    ((build gs).isEmpty = true ↔ gs.flatMap SynonymGroup.members = []) ∧
    (buildRecords gs).filter (fun r => r.level == .warn) =
      ((SynonymGroup.flatten gs).inits.zip (SynonymGroup.flatten gs)).filterMap
        fun (before, b) => (rebindingOf (lastTarget before b.source) b).map Rebinding.record := by
  refine ⟨get_build gs, fun c => by rw [mapChar_eq, get_build], size_build gs,
    isEmpty_build_iff gs, ?_⟩
  rw [warnings_buildRecords, rebindings_eq_filterMap, List.map_filterMap]

example : (build [⟨'x', ['q']⟩, ⟨'y', ['q']⟩]).get 'q' = some 'y' := by decide

end BrainfuckDialect
