import BrainfuckDialect.Symbol.Table

/-!
# Building tables leniently and strictly

`build` adds the bindings of a list of groups one by one and lets a later binding
replace an earlier one; `buildStrict` stops at the first binding that would replace a
different target. Both are runs of a one-binding step over the flattened bindings.
The invariant that connects them is `Consistent t bs`: the bindings still to come
agree with the table and with each other. One step lemma says how it moves across a
binding (`consistent_cons`); the run lemmas follow from it by induction on the
bindings:

* the strict run succeeds exactly on consistent bindings, and then builds the lenient
  table;
* otherwise it fails at the first binding that disagrees with the table built so far,
  naming the target that table holds;
* the lenient run reports a rebinding exactly when the bindings are not consistent.
-/

namespace BrainfuckDialect

/-- No two bindings of the list bind one source to different targets. -/
def ConflictFree (bs : List Binding) : Prop :=
  bs.Pairwise (fun a b => a.source = b.source → a.target = b.target)

instance (bs : List Binding) : Decidable (ConflictFree bs) :=
  inferInstanceAs (Decidable (bs.Pairwise _))

/-- The target of the first binding of `c`, if there is one. -/
def firstTarget (bs : List Binding) (c : Char) : Option Char :=
  (bs.find? (fun b => b.source == c)).map Binding.target

namespace SymbolTable

/-- A binding agrees with a table that binds its source to nothing or to its target. -/
def Agrees (t : SymbolTable) (b : Binding) : Prop :=
  ∀ p, t.get b.source = some p → p = b.target

/-- Bindings that can all be added to `t` without replacing a target: they agree with
each other and with `t`. -/
def Consistent (t : SymbolTable) (bs : List Binding) : Prop :=
  ConflictFree bs ∧ ∀ b ∈ bs, t.Agrees b

@[simp] theorem insertAll_nil (t : SymbolTable) : t.insertAll [] = t := rfl

@[simp] theorem insertAll_cons (t : SymbolTable) (b : Binding) (bs : List Binding) :
    t.insertAll (b :: bs) = (t.insert b.source b.target).insertAll bs := rfl

theorem agrees_insert {t : SymbolTable} {b b' : Binding} :
    (t.insert b.source b.target).Agrees b' ↔
      (b.source = b'.source → b.target = b'.target) ∧
        (b.source ≠ b'.source → t.Agrees b') := by
  by_cases hs : b.source = b'.source
  · simp [Agrees, hs]
  · simp [Agrees, hs]

theorem not_agrees_iff {t : SymbolTable} {b : Binding} :
    ¬t.Agrees b ↔ ∃ p, t.get b.source = some p ∧ p ≠ b.target := by
  cases hget : t.get b.source with
  | none => simp [Agrees, hget]
  | some p =>
      constructor
      · intro hb
        refine ⟨p, rfl, fun hp => hb fun q hq => ?_⟩
        rw [hget, Option.some.injEq] at hq
        rw [← hq, hp]
      · rintro ⟨q, hq, hne⟩ hb
        exact hne (hb q (by rw [hget, hq]))

theorem consistent_nil (t : SymbolTable) : t.Consistent [] :=
  ⟨List.Pairwise.nil, fun _ h => absurd h List.not_mem_nil⟩

/-- The step lemma: a binding can be added consistently when it agrees with the table,
and the rest can then be added to the table that holds it. -/
theorem consistent_cons {t : SymbolTable} {b : Binding} {bs : List Binding} :
    t.Consistent (b :: bs) ↔ t.Agrees b ∧ (t.insert b.source b.target).Consistent bs := by
  simp only [Consistent, ConflictFree, List.pairwise_cons, List.mem_cons,
    forall_eq_or_imp]
  constructor
  · rintro ⟨⟨hhead, hpair⟩, hb, hall⟩
    refine ⟨hb, hpair, fun b' hb' => agrees_insert.2 ⟨hhead b' hb', fun _ => hall b' hb'⟩⟩
  · rintro ⟨hb, hpair, hall⟩
    have hhead : ∀ b' ∈ bs, b.source = b'.source → b.target = b'.target :=
      fun b' hb' => (agrees_insert.1 (hall b' hb')).1
    refine ⟨⟨hhead, hpair⟩, hb, fun b' hb' => ?_⟩
    by_cases hs : b.source = b'.source
    · intro p hp
      rw [← hs] at hp
      rw [hb p hp, hhead b' hb' hs]
    · exact (agrees_insert.1 (hall b' hb')).2 hs

/-- From the empty table, consistency is the absence of conflicts. -/
theorem consistent_empty_iff (bs : List Binding) :
    empty.Consistent bs ↔ ConflictFree bs := by
  have hagree : ∀ b, empty.Agrees b := fun b p hp => by simp at hp
  exact ⟨fun h => h.1, fun h => ⟨h, fun b _ => hagree b⟩⟩

theorem insertAllStrict_cons_of_agrees {t : SymbolTable} {b : Binding}
    (hb : t.Agrees b) (bs : List Binding) :
    t.insertAllStrict (b :: bs) = (t.insert b.source b.target).insertAllStrict bs := by
  simp only [insertAllStrict]
  cases hget : t.get b.source with
  | none => rfl
  | some p => simp [hb p hget]

theorem insertAllStrict_cons_of_disagrees {t : SymbolTable} {b : Binding} {p : Char}
    (hget : t.get b.source = some p) (hp : p ≠ b.target) (bs : List Binding) :
    t.insertAllStrict (b :: bs) = .error (.ambiguousSynonym b.source p b.target) := by
  simp [insertAllStrict, hget, hp]

/-- A strict run over consistent bindings succeeds with the lenient table. -/
theorem insertAllStrict_of_consistent {t : SymbolTable} {bs : List Binding}
    (h : t.Consistent bs) :
    t.insertAllStrict bs = .ok (t.insertAll bs) := by
  induction bs generalizing t with
  | nil => rfl
  | cons b bs ih =>
      obtain ⟨hb, hrest⟩ := consistent_cons.1 h
      rw [insertAllStrict_cons_of_agrees hb, ih hrest, insertAll_cons]

/-- A strict run over bindings that are not consistent fails at the first binding that
disagrees with the table built from the bindings before it, and names the target that
table holds. By induction over the bindings: the run gets past the first binding and
fails further on, or stops at it. -/
theorem insertAllStrict_of_not_consistent {t : SymbolTable} {bs : List Binding}
    (h : ¬t.Consistent bs) :
    ∃ pre b post p, bs = pre ++ b :: post ∧ t.Consistent pre ∧
      (t.insertAll pre).get b.source = some p ∧ p ≠ b.target ∧
      t.insertAllStrict bs = .error (.ambiguousSynonym b.source p b.target) := by
  induction bs generalizing t with
  | nil => exact absurd (consistent_nil t) h
  | cons b bs ih =>
      by_cases hb : t.Agrees b
      · have hrest : ¬(t.insert b.source b.target).Consistent bs :=
          fun hc => h (consistent_cons.2 ⟨hb, hc⟩)
        obtain ⟨pre, b', post, p, rfl, hpre, hget, hp, hrun⟩ := ih hrest
        refine ⟨b :: pre, b', post, p, rfl, consistent_cons.2 ⟨hb, hpre⟩, ?_, hp, ?_⟩
        · rw [insertAll_cons]
          exact hget
        · rw [insertAllStrict_cons_of_agrees hb]
          exact hrun
      · obtain ⟨p, hget, hp⟩ := not_agrees_iff.1 hb
        exact ⟨[], b, bs, p, rfl, consistent_nil t, hget, hp,
          insertAllStrict_cons_of_disagrees hget hp bs⟩

/-- A strict run succeeds exactly on consistent bindings. -/
theorem insertAllStrict_isOk_iff (t : SymbolTable) (bs : List Binding) :
    (∃ t', t.insertAllStrict bs = .ok t') ↔ t.Consistent bs := by
  constructor
  · rintro ⟨t', hrun⟩
    refine Classical.byContradiction fun hc => ?_
    obtain ⟨pre, b, post, p, -, -, -, -, herr⟩ := insertAllStrict_of_not_consistent hc
    rw [herr] at hrun
    cases hrun
  · intro hc
    exact ⟨_, insertAllStrict_of_consistent hc⟩

/-- The lenient run reports no rebinding exactly on consistent bindings. -/
theorem rebindingsFrom_eq_nil_iff (t : SymbolTable) (bs : List Binding) :
    t.rebindingsFrom bs = [] ↔ t.Consistent bs := by
  induction bs generalizing t with
  | nil => exact ⟨fun _ => consistent_nil t, fun _ => rfl⟩
  | cons b bs ih =>
      rw [consistent_cons, ← ih]
      simp only [rebindingsFrom, Agrees]
      cases hget : t.get b.source with
      | none => simp
      | some p =>
          by_cases hp : p = b.target
          · simp [hp]
          · simp [hp]

/-! ## Lookups after a run -/

theorem get_insertAll_of_forall_ne {t : SymbolTable} {bs : List Binding} {c : Char}
    (h : ∀ b ∈ bs, b.source ≠ c) :
    (t.insertAll bs).get c = t.get c := by
  induction bs generalizing t with
  | nil => rfl
  | cons b bs ih =>
      rw [insertAll_cons, ih (fun b' hb' => h b' (List.mem_cons_of_mem b hb')), get_insert,
        if_neg (h b List.mem_cons_self)]

/-- What a run binds was bound before it or is one of its bindings. -/
theorem mem_of_get_insertAll {t : SymbolTable} {bs : List Binding} {c x : Char}
    (h : (t.insertAll bs).get c = some x) :
    t.get c = some x ∨ ⟨c, x⟩ ∈ bs := by
  induction bs generalizing t with
  | nil => exact Or.inl h
  | cons b bs ih =>
      rcases ih h with hget | hmem
      · rw [get_insert] at hget
        by_cases hs : b.source = c
        · rw [if_pos hs, Option.some.injEq] at hget
          right
          have hb : b = ⟨c, x⟩ := by
            cases b
            simp_all
          rw [← hb]
          exact List.mem_cons_self
        · rw [if_neg hs] at hget
          exact Or.inl hget
      · exact Or.inr (List.mem_cons_of_mem b hmem)

/-- After a consistent run every one of its bindings is in the table: a later binding of
the same character wins, and consistency gives it the same target. -/
theorem get_insertAll_of_mem {t : SymbolTable} {bs : List Binding} {b : Binding}
    (h : t.Consistent bs) (hb : b ∈ bs) :
    (t.insertAll bs).get b.source = some b.target := by
  induction bs generalizing t b with
  | nil => exact absurd hb List.not_mem_nil
  | cons b0 bs ih =>
      obtain ⟨-, hrest⟩ := consistent_cons.1 h
      rcases List.mem_cons.1 hb with rfl | hb'
      · by_cases hlater : ∃ b' ∈ bs, b'.source = b.source
        · obtain ⟨b', hb', hs⟩ := hlater
          have hhead := (List.pairwise_cons.1 h.1).1 b' hb' hs.symm
          have hlast := ih hrest hb'
          rw [hs] at hlast
          rw [insertAll_cons, hlast, hhead]
        · have hne : ∀ b' ∈ bs, b'.source ≠ b.source :=
            fun b' hb' hs => hlater ⟨b', hb', hs⟩
          rw [insertAll_cons, get_insertAll_of_forall_ne hne, get_insert, if_pos rfl]
      · exact ih hrest hb'

/-- After a conflict-free run from the empty table, a character is bound to a target
exactly when one of the bindings binds it so. -/
theorem get_insertAll_eq_some_iff {bs : List Binding} (h : ConflictFree bs) (c x : Char) :
    (empty.insertAll bs).get c = some x ↔ ⟨c, x⟩ ∈ bs := by
  constructor
  · intro hget
    exact (mem_of_get_insertAll hget).resolve_left (by simp)
  · intro hmem
    exact get_insertAll_of_mem ((consistent_empty_iff bs).2 h) hmem

/-- In conflict-free bindings the first binding of a character is the one the built
table holds. -/
theorem firstTarget_of_get_insertAll {bs : List Binding} {c x : Char}
    (h : ConflictFree bs) (hget : (empty.insertAll bs).get c = some x) :
    firstTarget bs c = some x := by
  have hcons := (consistent_empty_iff bs).2 h
  have hmem : ⟨c, x⟩ ∈ bs := (mem_of_get_insertAll hget).resolve_left (by simp)
  obtain ⟨b0, hfind⟩ : ∃ b0, bs.find? (fun b => b.source == c) = some b0 := by
    cases hf : bs.find? (fun b => b.source == c) with
    | none =>
        have := List.find?_eq_none.1 hf ⟨c, x⟩ hmem
        simp at this
    | some b0 => exact ⟨b0, rfl⟩
  have hb0 : b0 ∈ bs := List.mem_of_find?_eq_some hfind
  have hs : b0.source = c := by simpa using List.find?_some hfind
  have htarget : some b0.target = some x := by
    rw [← get_insertAll_of_mem hcons hb0, hs, hget]
  rw [firstTarget, hfind, Option.map_some, htarget]

end SymbolTable

/-! ## Strict and lenient builds from groups -/

open SymbolTable

theorem buildStrict_isOk_iff (gs : List SynonymGroup) :
    (∃ t, buildStrict gs = .ok t) ↔ ConflictFree (SynonymGroup.flatten gs) :=
  (insertAllStrict_isOk_iff empty _).trans (consistent_empty_iff _)

theorem consistent_of_buildStrict {gs : List SynonymGroup} {t : SymbolTable}
    (h : buildStrict gs = .ok t) :
    empty.Consistent (SynonymGroup.flatten gs) :=
  (insertAllStrict_isOk_iff empty _).1 ⟨t, h⟩

theorem eq_build_of_buildStrict {gs : List SynonymGroup} {t : SymbolTable}
    (h : buildStrict gs = .ok t) :
    t = build gs := by
  have hrun := insertAllStrict_of_consistent (consistent_of_buildStrict h)
  rw [buildStrict, hrun] at h
  cases h
  rfl

/-- `build` warns exactly when it rebinds a character to another target. -/
theorem no_warning_iff_rebindings_eq_nil (gs : List SynonymGroup) :
    (∀ r ∈ buildRecords gs, r.level ≠ .warn) ↔ rebindings gs = [] := by
  constructor
  · intro h
    cases hr : rebindings gs with
    | nil => rfl
    | cons r rs =>
        have hmem : r.record ∈ buildRecords gs := by
          simp [buildRecords, hr]
        exact absurd rfl (h _ hmem)
  · intro h r hr
    simp only [buildRecords, h, List.map_nil, List.nil_append, List.mem_singleton] at hr
    rw [hr]
    simp [Record.debug]

/-- The first conflict of the flattened bindings is the error of the strict build. -/
theorem buildStrict_of_not_conflictFree {gs : List SynonymGroup}
    (h : ¬ConflictFree (SynonymGroup.flatten gs)) :
    ∃ pre post s f t', SynonymGroup.flatten gs = pre ++ ⟨s, t'⟩ :: post ∧
      ConflictFree pre ∧ firstTarget (SynonymGroup.flatten gs) s = some f ∧ f ≠ t' ∧
      buildStrict gs = .error (.ambiguousSynonym s f t') := by
  have hnot : ¬empty.Consistent (SynonymGroup.flatten gs) :=
    fun hc => h ((consistent_empty_iff _).1 hc)
  obtain ⟨pre, b, post, p, hsplit, hpre, hget, hp, hrun⟩ :=
    insertAllStrict_of_not_consistent hnot
  have hpre' := (consistent_empty_iff pre).1 hpre
  have hfirst := firstTarget_of_get_insertAll hpre' hget
  refine ⟨pre, post, b.source, p, b.target, hsplit, hpre', ?_, hp, hrun⟩
  rw [hsplit, firstTarget, List.find?_append]
  rw [firstTarget] at hfirst
  cases hf : pre.find? (fun b' => b'.source == b.source) with
  | none => rw [hf, Option.map_none] at hfirst; cases hfirst
  | some b0 => rw [hf] at hfirst; simpa using hfirst

/-! ## What a table built from groups holds -/

theorem SynonymGroup.mem_bindings {g : SynonymGroup} {b : Binding} :
    b ∈ g.bindings ↔ b.source ∈ g.members ∧ b.target = g.canonical := by
  cases b with
  | mk s x =>
      simp only [SynonymGroup.bindings, List.mem_map]
      constructor
      · rintro ⟨a, ha, he⟩
        cases he
        exact ⟨ha, rfl⟩
      · rintro ⟨hs, rfl⟩
        exact ⟨s, hs, rfl⟩

theorem SynonymGroup.mem_flatten {gs : List SynonymGroup} {b : Binding} :
    b ∈ SynonymGroup.flatten gs ↔ ∃ g ∈ gs, b ∈ g.bindings := by
  simp [SynonymGroup.flatten]

/-- A group binds its own canonical to itself. -/
theorem SynonymGroup.canonical_binding_mem {gs : List SynonymGroup} {g : SynonymGroup}
    (hg : g ∈ gs) :
    ⟨g.canonical, g.canonical⟩ ∈ SynonymGroup.flatten gs :=
  SynonymGroup.mem_flatten.2
    ⟨g, hg, SynonymGroup.mem_bindings.2 ⟨List.mem_cons_self, rfl⟩⟩

/-- A character bound in the lenient table is a member of a group, bound to that
group's canonical. -/
theorem get_build_eq_some {gs : List SynonymGroup} {c x : Char}
    (h : (build gs).get c = some x) :
    ∃ g ∈ gs, c ∈ g.members ∧ x = g.canonical := by
  rcases mem_of_get_insertAll h with h0 | hmem
  · simp at h0
  · obtain ⟨g, hg, hb⟩ := SynonymGroup.mem_flatten.1 hmem
    exact ⟨g, hg, SynonymGroup.mem_bindings.1 hb⟩

/-- In a strict table every target is a canonical bound to itself, so mapping a mapped
character changes nothing. -/
theorem mapChar_mapChar_of_buildStrict {gs : List SynonymGroup} {t : SymbolTable}
    (h : buildStrict gs = .ok t) (c : Char) :
    t.mapChar (t.mapChar c) = t.mapChar c := by
  have hcons := consistent_of_buildStrict h
  rw [eq_build_of_buildStrict h]
  cases hget : (build gs).get c with
  | none => simp [mapChar_eq, hget]
  | some x =>
      obtain ⟨g, hg, -, rfl⟩ := get_build_eq_some hget
      have hself : (build gs).get g.canonical = some g.canonical :=
        get_insertAll_of_mem hcons (SynonymGroup.canonical_binding_mem hg)
      simp [mapChar_eq, hget, hself]

/-- The strict build succeeds exactly when no character is bound to two targets, which
is exactly when the lenient build warns about nothing, and then both give the same
table. Otherwise the strict build reports the first binding that rebinds a character,
with the target of the character's first binding. -/
theorem buildStrict_correct (gs : List SynonymGroup) :
    ((∃ t, buildStrict gs = .ok t) ↔ ConflictFree (SynonymGroup.flatten gs)) ∧
      ((∃ t, buildStrict gs = .ok t) ↔ ∀ r ∈ buildRecords gs, r.level ≠ .warn) ∧
      (∀ t, buildStrict gs = .ok t → t = build gs) ∧
      (¬ConflictFree (SynonymGroup.flatten gs) →
        ∃ pre post s f t', SynonymGroup.flatten gs = pre ++ ⟨s, t'⟩ :: post ∧
          ConflictFree pre ∧ firstTarget (SynonymGroup.flatten gs) s = some f ∧ f ≠ t' ∧
          buildStrict gs = .error (.ambiguousSynonym s f t')) := by
  have hok := buildStrict_isOk_iff gs
  have hwarn : (∀ r ∈ buildRecords gs, r.level ≠ .warn) ↔
      ConflictFree (SynonymGroup.flatten gs) := by
    rw [no_warning_iff_rebindings_eq_nil, rebindings, rebindingsFrom_eq_nil_iff,
      consistent_empty_iff]
  exact ⟨hok, hok.trans hwarn.symm, fun t h => eq_build_of_buildStrict h,
    buildStrict_of_not_conflictFree⟩

/-- Two groups that both claim `q`: the strict build stops at the second claim. -/
theorem buildStrict_correct_rebound :
    ¬ConflictFree (SynonymGroup.flatten [⟨'x', ['q']⟩, ⟨'y', ['q']⟩]) ∧
      ∃ pre post s f t',
        SynonymGroup.flatten [⟨'x', ['q']⟩, ⟨'y', ['q']⟩] = pre ++ ⟨s, t'⟩ :: post ∧
        ConflictFree pre ∧
        firstTarget (SynonymGroup.flatten [⟨'x', ['q']⟩, ⟨'y', ['q']⟩]) s = some f ∧
        f ≠ t' ∧
        buildStrict [⟨'x', ['q']⟩, ⟨'y', ['q']⟩] = .error (.ambiguousSynonym s f t') :=
  have hconflict : ¬ConflictFree (SynonymGroup.flatten [⟨'x', ['q']⟩, ⟨'y', ['q']⟩]) := by
    decide
  ⟨hconflict, (buildStrict_correct _).2.2.2 hconflict⟩

end BrainfuckDialect
