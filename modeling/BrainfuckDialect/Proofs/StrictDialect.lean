import Mathlib
import BrainfuckDialect.Proofs.DialectTable

/-!
# When a dialect has a strict table

Each opcode reads its canonical character and its three fixed synonyms; call these its
sources. The fixed synonym columns are pairwise disjoint, so the strict checks of a
dialect come down to its nine canonicals. The strict table exists exactly when no
character is a source of two opcodes, that is, when the canonicals are distinct and no
canonical is a synonym of another opcode; it then maps each source of an opcode to the
opcode's canonical and nothing else. Otherwise the first check that fails decides the
error: two opcodes with one canonical give the first such pair in `Opcode.all` order,
and a canonical that is another opcode's synonym gives an ambiguous synonym.
-/

namespace BrainfuckDialect

open SymbolTable

/-- No two fixed synonym columns share a character. The columns are compared by character
codes, which the kernel decides quickly. -/
theorem Opcode.eq_of_mem_synonyms {p q : Opcode} {c : Char}
    (hp : c ∈ p.synonyms) (hq : c ∈ q.synonyms) :
    p = q := by
  have hcolumns : ∀ p ∈ Opcode.all, ∀ q ∈ Opcode.all,
      p = q ∨ ∀ n ∈ p.synonyms.map Char.toNat, n ∉ q.synonyms.map Char.toNat := by
    decide +kernel
  rcases hcolumns p (Opcode.mem_all p) q (Opcode.mem_all q) with h | h
  · exact h
  · exact absurd (List.mem_map_of_mem hq) (h c.toNat (List.mem_map_of_mem hp))

theorem Opcode.all_sorted : Opcode.all.Pairwise (fun a b => a.index < b.index) := by
  decide

/-- In opcodes listed in increasing order after `a`, a pair in increasing order ends after
`a`. -/
theorem Opcode.mem_of_index_lt {a a' b' : Opcode} {rest : List Opcode}
    (hhead : ∀ b ∈ rest, a.index < b.index) (ha' : a' ∈ a :: rest) (hb' : b' ∈ a :: rest)
    (hlt : a'.index < b'.index) :
    b' ∈ rest := by
  rcases List.mem_cons.1 hb' with rfl | hb'
  · rcases List.mem_cons.1 ha' with rfl | ha'
    · exact absurd hlt (Nat.lt_irrefl _)
    · exact absurd (hhead a' ha') (by omega)
  · exact hb'

/-- In opcodes listed in increasing order, the first that passes a test comes no later
than any other that passes it. -/
theorem Opcode.index_le_of_find?_eq_some {ops : List Opcode} {p : Opcode → Bool}
    {b b' : Opcode} (hsorted : ops.Pairwise (fun a b => a.index < b.index))
    (hfind : ops.find? p = some b) (hb' : b' ∈ ops) (hp : p b' = true) :
    b.index ≤ b'.index := by
  obtain ⟨-, pre, post, hsplit, hpre⟩ := List.find?_eq_some_iff_append.1 hfind
  rw [hsplit] at hb' hsorted
  rcases List.mem_append.1 hb' with hb'pre | hb'post
  · exact absurd hp (by simpa using hpre b' hb'pre)
  · rcases List.mem_cons.1 hb'post with rfl | hb'post
    · exact Nat.le_refl _
    · have hbpost := (List.pairwise_cons.1 (List.pairwise_append.1 hsorted).2.1).1
      exact Nat.le_of_lt (hbpost b' hb'post)

/-- Conflict freedom asks every two bindings of a character, in either order, to agree. -/
theorem conflictFree_iff_forall (bs : List Binding) :
    ConflictFree bs ↔
      ∀ b ∈ bs, ∀ b' ∈ bs, b.source = b'.source → b.target = b'.target := by
  constructor
  · intro h
    apply List.Pairwise.forall_of_forall_of_flip
    · intro b _ _
      rfl
    · exact h
    · exact h.imp fun hst hs => (hst hs.symm).symm
  · exact List.pairwise_of_forall_mem_list

namespace Dialect

variable {d : Dialect}

/-- The bindings of a dialect bind each source of an opcode to its canonical. -/
theorem mem_flatten_groups {b : Binding} :
    b ∈ SynonymGroup.flatten d.groups ↔
      ∃ op, b.source ∈ (d.group op).members ∧ b.target = d.canonical op := by
  rw [SynonymGroup.mem_flatten]
  constructor
  · rintro ⟨g, hg, hb⟩
    obtain ⟨op, rfl⟩ := mem_groups.1 hg
    exact ⟨op, SynonymGroup.mem_bindings.1 hb⟩
  · rintro ⟨op, hb⟩
    exact ⟨d.group op, mem_groups.2 ⟨op, rfl⟩, SynonymGroup.mem_bindings.2 hb⟩

/-- A dialect's bindings are free of conflicts exactly when opcodes that share a source
share their canonical. -/
theorem conflictFree_groups_iff :
    ConflictFree (SynonymGroup.flatten d.groups) ↔
      ∀ p q c, c ∈ (d.group p).members → c ∈ (d.group q).members →
        d.canonical p = d.canonical q := by
  rw [conflictFree_iff_forall]
  constructor
  · intro h p q c hp hq
    exact h ⟨c, d.canonical p⟩ (mem_flatten_groups.2 ⟨p, hp, rfl⟩)
      ⟨c, d.canonical q⟩ (mem_flatten_groups.2 ⟨q, hq, rfl⟩) rfl
  · intro h b hb b' hb' hs
    obtain ⟨p, hp, hpt⟩ := mem_flatten_groups.1 hb
    obtain ⟨q, hq, hqt⟩ := mem_flatten_groups.1 hb'
    rw [hpt, hqt]
    exact h p q b.source hp (hs ▸ hq)

/-- A character that is a source of two opcodes with different canonicals is the
canonical of one of them and a synonym of the other. -/
theorem overlap_cases {p q : Opcode} {c : Char}
    (hp : c ∈ (d.group p).members) (hq : c ∈ (d.group q).members)
    (hpq : p ≠ q) (hcan : d.canonical p ≠ d.canonical q) :
    (c = d.canonical p ∧ c ∈ q.synonyms) ∨ (c = d.canonical q ∧ c ∈ p.synonyms) := by
  rcases List.mem_cons.1 hp with hp | hp <;> rcases List.mem_cons.1 hq with hq | hq
  · exact absurd (hp.symm.trans hq) hcan
  · exact Or.inl ⟨hp, hq⟩
  · exact Or.inr ⟨hq, hp⟩
  · exact absurd (Opcode.eq_of_mem_synonyms hp hq) hpq

theorem canonical_mem_members (op : Opcode) : d.canonical op ∈ (d.group op).members :=
  List.mem_cons_self

/-- Sources are disjoint exactly when the canonicals are distinct and no canonical is a
synonym of another opcode. -/
theorem sources_disjoint_iff :
    (∀ p q c, c ∈ (d.group p).members → c ∈ (d.group q).members → p = q) ↔
      (∀ p q, d.canonical p = d.canonical q → p = q) ∧
        ∀ p q, d.canonical p ∈ q.synonyms → q = p := by
  constructor
  · intro h
    refine ⟨fun p q hpq => h p q _ (canonical_mem_members p) (hpq ▸ canonical_mem_members q), ?_⟩
    intro p q hsyn
    exact h q p _ (List.mem_cons_of_mem _ hsyn) (canonical_mem_members p)
  · rintro ⟨hinj, hsyn⟩ p q c hp hq
    by_contra hpq
    have hcan : d.canonical p ≠ d.canonical q := fun h => hpq (hinj p q h)
    rcases overlap_cases hp hq hpq hcan with ⟨rfl, hc⟩ | ⟨rfl, hc⟩
    · exact hpq (hsyn p q hc).symm
    · exact hpq (hsyn q p hc)

/-! ## The check of the canonicals -/

theorem firstShared_eq_none_iff (ops : List Opcode) :
    d.firstShared ops = none ↔ ops.Pairwise (fun a b => d.canonical a ≠ d.canonical b) := by
  induction ops with
  | nil => simp [firstShared]
  | cons a rest ih =>
      rw [List.pairwise_cons, ← ih]
      simp only [firstShared]
      split
      · rename_i b hfind
        have hb := List.mem_of_find?_eq_some hfind
        have hab : d.canonical a = d.canonical b := by simpa using List.find?_some hfind
        simp only [reduceCtorEq, false_iff, not_and]
        intro hall
        exact absurd hab (hall b hb)
      · rename_i hfind
        have hall : ∀ b ∈ rest, d.canonical a ≠ d.canonical b := by
          intro b hb hab
          exact absurd (by simpa using hab) (List.find?_eq_none.1 hfind b hb)
        exact ⟨fun h => ⟨hall, h⟩, fun h => h.2⟩

/-- On opcodes in increasing order, `firstShared` finds the pair with one canonical whose
first opcode comes first, and among those the one whose second opcode comes first: the
first opcode and the first later one with its canonical, or else a pair further on. -/
theorem firstShared_eq_some {ops : List Opcode} {c : Conflict}
    (hsorted : ops.Pairwise (fun a b => a.index < b.index))
    (h : d.firstShared ops = some c) :
    ∃ a ∈ ops, ∃ b ∈ ops, c = .sharedCanonical (d.canonical a) a b ∧
      a.index < b.index ∧ d.canonical a = d.canonical b ∧
      ∀ a' ∈ ops, ∀ b' ∈ ops, a'.index < b'.index → d.canonical a' = d.canonical b' →
        a.index < a'.index ∨ (a.index = a'.index ∧ b.index ≤ b'.index) := by
  induction ops with
  | nil => cases h
  | cons a rest ih =>
      obtain ⟨hhead, htail⟩ := List.pairwise_cons.1 hsorted
      simp only [firstShared] at h
      split at h
      · rename_i b hfind
        cases h
        have hb : b ∈ rest := List.mem_of_find?_eq_some hfind
        have hab : d.canonical a = d.canonical b := by simpa using List.find?_some hfind
        refine ⟨a, List.mem_cons_self, b, List.mem_cons_of_mem a hb, rfl, hhead b hb, hab, ?_⟩
        intro a' ha' b' hb' hlt hcan
        rcases List.mem_cons.1 ha' with rfl | ha'
        · exact Or.inr ⟨rfl, Opcode.index_le_of_find?_eq_some htail hfind
            (Opcode.mem_of_index_lt hhead ha' hb' hlt) (by simpa using hcan)⟩
        · exact Or.inl (hhead a' ha')
      · rename_i hfind
        obtain ⟨a₀, ha₀, b₀, hb₀, rfl, hlt₀, hcan₀, hmin⟩ := ih htail h
        refine ⟨a₀, List.mem_cons_of_mem a ha₀, b₀, List.mem_cons_of_mem a hb₀, rfl, hlt₀,
          hcan₀, ?_⟩
        intro a' ha' b' hb' hlt hcan
        have hb'rest := Opcode.mem_of_index_lt hhead ha' hb' hlt
        rcases List.mem_cons.1 ha' with rfl | ha'
        · have hne := List.find?_eq_none.1 hfind b' hb'rest
          exact absurd (by simpa using hcan) hne
        · exact hmin a' ha' b' hb'rest hlt hcan

/-- `(a, b)` is the first pair of opcodes with one canonical, in `Opcode.all` order
compared by the first opcode and then by the second. -/
def FirstSharedPair (d : Dialect) (a b : Opcode) : Prop :=
  a.index < b.index ∧ d.canonical a = d.canonical b ∧
    ∀ a' b', a'.index < b'.index → d.canonical a' = d.canonical b' →
      a.index < a'.index ∨ (a.index = a'.index ∧ b.index ≤ b'.index)

/-- A dialect passes validation exactly when its canonicals are distinct, that is pairwise
distinct along `Opcode.all`. -/
theorem validate_eq_ok_iff :
    d.validate = .ok () ↔ ∀ p q, d.canonical p = d.canonical q → p = q := by
  have hnodup : Opcode.all.Nodup := by decide
  have hinj : (∀ p q, d.canonical p = d.canonical q → p = q) ↔
      Opcode.all.Pairwise (fun a b => d.canonical a ≠ d.canonical b) := by
    rw [← List.pairwise_map, ← List.Nodup, List.nodup_map_iff_inj_on hnodup]
    simp [Opcode.mem_all]
  rw [hinj, ← firstShared_eq_none_iff, validate]
  cases d.firstShared Opcode.all <;> simp

theorem validate_eq_error {p q : Opcode} (hpq : p ≠ q)
    (hcan : d.canonical p = d.canonical q) :
    ∃ a b, d.FirstSharedPair a b ∧
      d.validate = .error (.sharedCanonical (d.canonical a) a b) := by
  have hsome : d.firstShared Opcode.all ≠ none := by
    intro hnone
    exact hpq ((validate_eq_ok_iff.1 (by rw [validate, hnone])) p q hcan)
  obtain ⟨c, hc⟩ := Option.ne_none_iff_exists'.1 hsome
  obtain ⟨a, -, b, -, rfl, hlt, hab, hmin⟩ := firstShared_eq_some Opcode.all_sorted hc
  refine ⟨a, b, ⟨hlt, hab, fun a' b' => hmin a' (Opcode.mem_all a') b' (Opcode.mem_all b')⟩, ?_⟩
  rw [validate, hc]

/-! ## The strict table -/

theorem strictTable_of_validate_ok (h : d.validate = .ok ()) :
    d.strictTable = buildStrict d.groups := by
  rw [strictTable, h]

theorem strictTable_of_validate_error {c : Conflict} (h : d.validate = .error c) :
    d.strictTable = .error c := by
  rw [strictTable, h]

theorem strictTable_isOk_iff :
    (∃ t, d.strictTable = .ok t) ↔
      d.validate = .ok () ∧ ConflictFree (SynonymGroup.flatten d.groups) := by
  cases hv : d.validate with
  | error c => simp [strictTable_of_validate_error hv]
  | ok u => simp [strictTable_of_validate_ok hv, buildStrict_isOk_iff]

/-- A strict table maps the sources of each opcode to its canonical, and nothing else. -/
theorem get_of_strictTable {t : SymbolTable} (h : d.strictTable = .ok t) (c x : Char) :
    t.get c = some x ↔ ∃ op, c ∈ (d.group op).members ∧ x = d.canonical op := by
  have hstrict := buildStrict_of_strictTable h
  have hfree := (buildStrict_isOk_iff _).1 ⟨t, hstrict⟩
  rw [eq_build_of_buildStrict hstrict, build, get_insertAll_eq_some_iff hfree]
  exact mem_flatten_groups

theorem strictTable_isOk_iff_disjoint :
    (∃ t, d.strictTable = .ok t) ↔
      ∀ p q c, c ∈ (d.group p).members → c ∈ (d.group q).members → p = q := by
  rw [strictTable_isOk_iff, validate_eq_ok_iff, conflictFree_groups_iff]
  constructor
  · rintro ⟨hinj, hfree⟩ p q c hp hq
    exact hinj p q (hfree p q c hp hq)
  · intro h
    refine ⟨fun p q hpq => h p q _ (canonical_mem_members p) (hpq ▸ canonical_mem_members q), ?_⟩
    intro p q c hp hq
    rw [h p q c hp hq]

/-- With distinct canonicals, overlapping sources make the strict build fail at a
canonical that is a synonym of another opcode, bound to one target by a first binding
and to another by the failing one. -/
theorem strictTable_eq_ambiguous (hinj : ∀ p q, d.canonical p = d.canonical q → p = q)
    (hoverlap : ∃ p q c, c ∈ (d.group p).members ∧ c ∈ (d.group q).members ∧ p ≠ q) :
    ∃ p q first second, q ≠ p ∧ d.canonical p ∈ q.synonyms ∧
      d.strictTable = .error (.ambiguousSynonym (d.canonical p) first second) := by
  have hvalid := validate_eq_ok_iff.2 hinj
  have hconflict : ¬ConflictFree (SynonymGroup.flatten d.groups) := by
    intro hfree
    obtain ⟨p, q, c, hp, hq, hpq⟩ := hoverlap
    exact hpq (hinj p q (conflictFree_groups_iff.1 hfree p q c hp hq))
  obtain ⟨pre, post, s, f, t', hsplit, -, hfirst, hft, herr⟩ :=
    buildStrict_of_not_conflictFree hconflict
  obtain ⟨b₀, hfind, rfl⟩ := Option.map_eq_some_iff.1 hfirst
  have hs₀ : b₀.source = s := by simpa using List.find?_some hfind
  obtain ⟨p, hp, hpt⟩ := mem_flatten_groups.1 (List.mem_of_find?_eq_some hfind)
  have hmem : (⟨s, t'⟩ : Binding) ∈ SynonymGroup.flatten d.groups := by
    rw [hsplit]
    exact List.mem_append_right pre List.mem_cons_self
  obtain ⟨q, hq, hqt⟩ := mem_flatten_groups.1 hmem
  have hcan : d.canonical p ≠ d.canonical q := by
    rw [← hpt]
    exact fun h => hft (h.trans hqt.symm)
  have hpq : p ≠ q := fun h => hcan (h ▸ rfl)
  rw [hs₀] at hp
  rw [strictTable_of_validate_ok hvalid, herr]
  rcases overlap_cases hp hq hpq hcan with ⟨rfl, hsyn⟩ | ⟨rfl, hsyn⟩
  · exact ⟨p, q, _, _, hpq.symm, hsyn, rfl⟩
  · exact ⟨q, p, _, _, hpq, hsyn, rfl⟩

/-- The strict table of a dialect exists exactly when no character is a source of two
opcodes, equivalently when the canonicals are distinct and none is another opcode's
synonym; it is then the dialect's table and maps the sources of each opcode to its
canonical. Two opcodes with one canonical make it fail with the first such pair, and
otherwise overlapping sources make it fail at a canonical that is another opcode's
synonym. -/
theorem strictTable_iff_sources_disjoint (d : Dialect) :
    ((∃ t, d.strictTable = .ok t) ↔
      ∀ p q c, c ∈ (d.group p).members → c ∈ (d.group q).members → p = q) ∧
    ((∃ t, d.strictTable = .ok t) ↔
      (∀ p q, d.canonical p = d.canonical q → p = q) ∧
        ∀ p q, d.canonical p ∈ q.synonyms → q = p) ∧
    (∀ t, d.strictTable = .ok t →
      t = d.table ∧
        ∀ c x, t.get c = some x ↔ ∃ op, c ∈ (d.group op).members ∧ x = d.canonical op) ∧
    (∀ p q, p ≠ q → d.canonical p = d.canonical q →
      ∃ a b, d.FirstSharedPair a b ∧
        d.strictTable = .error (.sharedCanonical (d.canonical a) a b)) ∧
    ((∀ p q, d.canonical p = d.canonical q → p = q) →
      (∃ p q c, c ∈ (d.group p).members ∧ c ∈ (d.group q).members ∧ p ≠ q) →
      ∃ p q first second, q ≠ p ∧ d.canonical p ∈ q.synonyms ∧
        d.strictTable = .error (.ambiguousSynonym (d.canonical p) first second)) := by
  refine ⟨strictTable_isOk_iff_disjoint,
    strictTable_isOk_iff_disjoint.trans sources_disjoint_iff,
    fun t h => ⟨eq_table_of_strictTable h, get_of_strictTable h⟩, ?_, strictTable_eq_ambiguous⟩
  intro p q hpq hcan
  obtain ⟨a, b, hfirst, hv⟩ := validate_eq_error hpq hcan
  exact ⟨a, b, hfirst, strictTable_of_validate_error hv⟩

/-- Setting `plus` to `i` gives it the canonical of `minus`, and the strict table reports
the first pair of opcodes that share a canonical. Setting it to `-` keeps the canonicals
distinct but puts `-` in the groups of `plus` and `minus`, and the strict table reports a
canonical that is another opcode's synonym. -/
theorem strictTable_iff_sources_disjoint_rebound_plus :
    (Opcode.plus ≠ Opcode.minus ∧
      (letters.withCanonical .plus 'i').canonical .plus =
        (letters.withCanonical .plus 'i').canonical .minus ∧
      ∃ a b, (letters.withCanonical .plus 'i').FirstSharedPair a b ∧
        (letters.withCanonical .plus 'i').strictTable =
          .error (.sharedCanonical ((letters.withCanonical .plus 'i').canonical a) a b)) ∧
    ((∀ p q, (letters.withCanonical .plus '-').canonical p =
        (letters.withCanonical .plus '-').canonical q → p = q) ∧
      (∃ p q c, c ∈ ((letters.withCanonical .plus '-').group p).members ∧
        c ∈ ((letters.withCanonical .plus '-').group q).members ∧ p ≠ q) ∧
      ∃ p q first second, q ≠ p ∧ (letters.withCanonical .plus '-').canonical p ∈ q.synonyms ∧
        (letters.withCanonical .plus '-').strictTable =
          .error (.ambiguousSynonym ((letters.withCanonical .plus '-').canonical p) first
            second)) :=
  have hne : Opcode.plus ≠ Opcode.minus := by decide
  have hcan : (letters.withCanonical .plus 'i').canonical .plus =
      (letters.withCanonical .plus 'i').canonical .minus := rfl
  have hinj : ∀ p q, (letters.withCanonical .plus '-').canonical p =
      (letters.withCanonical .plus '-').canonical q → p = q := validate_eq_ok_iff.1 rfl
  have hoverlap : ∃ p q c, c ∈ ((letters.withCanonical .plus '-').group p).members ∧
      c ∈ ((letters.withCanonical .plus '-').group q).members ∧ p ≠ q :=
    ⟨.plus, .minus, '-', by decide, by decide, hne⟩
  ⟨⟨hne, hcan, (strictTable_iff_sources_disjoint _).2.2.2.1 .plus .minus hne hcan⟩,
    ⟨hinj, hoverlap, (strictTable_iff_sources_disjoint _).2.2.2.2 hinj hoverlap⟩⟩

end Dialect
end BrainfuckDialect
