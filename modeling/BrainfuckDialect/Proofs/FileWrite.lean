import Mathlib
import BrainfuckDialect.Workspace

/-!
# What writing a file changes

A write that succeeds changes the workspace at most at the place its path leads to.
`Workspace.write_eq_ok_cases` says how: that place is not a directory; when it holds a
device or lies outside the workspace the files stay as they were, and otherwise the
text's bytes are set there. Setting a file changes the lookup at its own place only, so
a walk that stands at that place nowhere on its way goes as before, and so does a read
along it. The main statement, `Workspace.read_of_write`, puts this together: the path
written reads back as the text when the file is kept, and every path that avoids the
written place reads as before.
-/

namespace BrainfuckDialect
namespace Workspace

/-- The path `path` never stands at the place `pl`: none of the runs of its first names
leads there, the run of all of them included. -/
def Avoids (ws : Workspace) (path : String) (pl : Place) : Prop :=
  ∀ k, ws.walk (Place.start path) ((path.splitOn "/").take k) ≠ .ok pl

/-! ## Setting a file -/

theorem setFile_key (p q : List String) (b : ByteArray) (e : List String × Node) :
    ((if e.1 == p then (p, Node.file b) else e).1 == q) = (e.1 == q) := by
  by_cases h : e.1 = p
  · simp [h]
  · simp [h]

theorem find?_setFile_of_ne (ws : Workspace) {p q : List String} (h : q ≠ p) (b : ByteArray) :
    (ws.setFile p b).find? q = ws.find? q := by
  by_cases hq : q = []
  · simp [find?, hq]
  · simp only [find?, hq, if_false, setFile]
    split
    · rw [List.find?_map]
      simp only [Function.comp_def, setFile_key]
      cases hfind : ws.entries.find? (fun e => e.1 == q) with
      | none => rfl
      | some e =>
          have hkey : e.1 = q := by simpa using List.find?_some hfind
          simp [hkey, h]
    · rw [List.find?_append]
      have hlast : [(p, Node.file b)].find? (fun e => e.1 == q) = none := by
        simp [Ne.symm h]
      rw [hlast, Option.or_none]

theorem find?_setFile_self (ws : Workspace) {p : List String} (hp : p ≠ []) (b : ByteArray) :
    (ws.setFile p b).find? p = some (.file b) := by
  simp only [find?, hp, if_false, setFile]
  split
  · rename_i hany
    rw [List.find?_map]
    simp only [Function.comp_def, setFile_key]
    obtain ⟨e, he, hkey⟩ := List.any_eq_true.1 hany
    obtain ⟨e', hfind⟩ : ∃ e', ws.entries.find? (fun e => e.1 == p) = some e' :=
      Option.isSome_iff_exists.1 (List.find?_isSome.2 ⟨e, he, hkey⟩)
    have hkey' : e'.1 = p := by simpa using List.find?_some hfind
    simp [hfind, hkey']
  · rename_i hany
    have hnone : ws.entries.find? (fun e => e.1 == p) = none := by
      rw [List.find?_eq_none]
      intro e he hkey
      exact hany (List.any_eq_true.2 ⟨e, he, hkey⟩)
    simp [List.find?_append, hnone]

theorem nodeAt?_setFile_of_ne (ws : Workspace) {p : List String} {pl : Place}
    (h : pl ≠ .inside p) (b : ByteArray) :
    (ws.setFile p b).nodeAt? pl = ws.nodeAt? pl := by
  cases pl with
  | inside q =>
      have hq : q ≠ p := fun hqp => h (hqp ▸ rfl)
      exact find?_setFile_of_ne ws hq b
  | outside q => rfl

theorem nodeAt?_setFile_self (ws : Workspace) {p : List String} (hp : p ≠ []) (b : ByteArray) :
    (ws.setFile p b).nodeAt? (.inside p) = some (.file b) :=
  find?_setFile_self ws hp b

/-! ## Walks -/

/-- A walk that goes on from a place stands there at a directory. -/
theorem nodeAt?_of_walk_cons {ws : Workspace} {cur pl : Place} {c : String}
    {rest : List String} (h : ws.walk cur (c :: rest) = .ok pl) :
    ws.nodeAt? cur = some .dir := by
  rw [walk] at h
  split at h
  · cases h
  · assumption
  · cases h

/-- One step of a walk from a directory. -/
theorem walk_cons_of_dir {ws : Workspace} {cur : Place} (h : ws.nodeAt? cur = some .dir)
    (c : String) (rest : List String) :
    ws.walk cur (c :: rest) =
      if c = "" ∨ c = "." then ws.walk cur rest
      else if c = ".." then ws.walk cur.up rest
      else if c.utf8ByteSize > nameMax then .error .nameTooLong
      else ws.walk (cur.child c) rest := by
  rw [walk, h]

/-- Setting a file that is not a directory keeps every walk that succeeds: the walk
stands only at directories, and the file's place is not one. -/
theorem walk_setFile_of_ok {ws : Workspace} {p : List String} (hp : ws.find? p ≠ some .dir)
    (b : ByteArray) {cur pl : Place} {names : List String} (h : ws.walk cur names = .ok pl) :
    (ws.setFile p b).walk cur names = .ok pl := by
  induction names generalizing cur with
  | nil => exact h
  | cons c rest ih =>
      have hdir := nodeAt?_of_walk_cons h
      have hcur : cur ≠ .inside p := by
        rintro rfl
        exact hp hdir
      have hdir' : (ws.setFile p b).nodeAt? cur = some .dir := by
        rw [nodeAt?_setFile_of_ne ws hcur b, hdir]
      rw [walk_cons_of_dir hdir] at h
      rw [walk_cons_of_dir hdir']
      split_ifs at h ⊢
      · exact ih h
      · exact ih h
      · exact ih h

/-- A walk that never stands at the place of a file goes the same way after the file is
set. -/
theorem walk_setFile_of_avoids {ws : Workspace} {p : List String} (b : ByteArray) {cur : Place}
    {names : List String} (h : ∀ k, ws.walk cur (names.take k) ≠ .ok (.inside p)) :
    (ws.setFile p b).walk cur names = ws.walk cur names := by
  induction names generalizing cur with
  | nil => rfl
  | cons c rest ih =>
      have hcur : cur ≠ .inside p := fun hc => h 0 (by rw [List.take_zero, hc]; rfl)
      have hnode := nodeAt?_setFile_of_ne ws hcur b
      by_cases hdir : ws.nodeAt? cur = some .dir
      · have hrest := fun k => h (k + 1)
        simp only [List.take_succ_cons, walk_cons_of_dir hdir] at hrest
        rw [walk_cons_of_dir (hnode.trans hdir), walk_cons_of_dir hdir]
        by_cases h₁ : c = "" ∨ c = "."
        · simp only [h₁, if_true] at hrest ⊢
          exact ih hrest
        by_cases h₂ : c = ".."
        · simp only [h₂, if_true] at hrest ⊢
          exact ih hrest
        by_cases h₃ : c.utf8ByteSize > nameMax
        · simp only [h₁, h₂, h₃, if_true, if_false]
        · simp only [h₁, h₂, h₃, if_false] at hrest ⊢
          exact ih hrest
      · rw [walk, walk, hnode]
        split
        · rfl
        · contradiction
        · rfl

theorem walk_append (ws : Workspace) (cur : Place) (xs ys : List String) :
    ws.walk cur (xs ++ ys) = ws.walk cur xs >>= fun pl => ws.walk pl ys := by
  induction xs generalizing cur with
  | nil => rfl
  | cons c rest ih =>
      rw [List.cons_append, walk, walk]
      cases ws.nodeAt? cur with
      | none => rfl
      | some n =>
          cases n with
          | file => rfl
          | sink => rfl
          | dir =>
              simp only
              split_ifs
              · exact ih cur
              · exact ih cur.up
              · rfl
              · exact ih (cur.child c)

/-! ## Reads after setting a file -/

/-- A path that avoids the place of a file reads the same after the file is set. -/
theorem read_setFile_of_avoids {ws : Workspace} {p : List String} (b : ByteArray)
    {path : String} (h : ws.Avoids path (.inside p)) :
    (ws.setFile p b).read path = ws.read path := by
  have hwalk : (ws.setFile p b).locate path = ws.locate path := walk_setFile_of_avoids b h
  unfold read
  rw [hwalk]
  cases hloc : ws.locate path with
  | error e => rfl
  | ok pl =>
      have hpl : pl ≠ .inside p := by
        rintro rfl
        apply h (path.splitOn "/").length
        rw [List.take_length]
        exact hloc
      simp only [nodeAt?_setFile_of_ne ws hpl b]

/-- A path that leads to the place of a file that is not a directory reads, after the
file is set to the bytes of a text, as that text. -/
theorem read_setFile_self {ws : Workspace} {p : List String} (hp : p ≠ [])
    (hdir : ws.find? p ≠ some .dir) (text : String) {path : String}
    (hproblem : pathProblem? path = none) (hloc : ws.locate path = .ok (.inside p)) :
    (ws.setFile p text.toUTF8).read path = .ok text := by
  have hloc' : (ws.setFile p text.toUTF8).locate path = .ok (.inside p) :=
    walk_setFile_of_ok hdir _ hloc
  have hdecode : String.fromUTF8? text.toUTF8 = some text := by
    simp [String.fromUTF8?, text.isValidUTF8, String.fromUTF8]
  simp only [read, hproblem, hloc', nodeAt?_setFile_self ws hp, hdecode]

/-! ## Writing -/

theorem walk_eq_of_dirAt {ws : Workspace} {start parent : Place} {names : List String}
    (h : ws.dirAt start names = .ok parent) :
    ws.walk start names = .ok parent ∧ ws.nodeAt? parent = some .dir := by
  unfold dirAt at h
  split at h
  · cases h
  · rename_i p hwalk
    split at h
    · cases h
      exact ⟨hwalk, by assumption⟩
    · cases h
    · cases h

/-- The names a write keeps, with the empty names at the end dropped, end in a name that is
not empty. -/
theorem ne_empty_of_getLast?_rdropWhile {names : List String} {last : String}
    (h : (names.rdropWhile (· = "")).getLast? = some last) : last ≠ "" := by
  have hne : names.rdropWhile (· = "") ≠ [] := by
    rintro hnil
    rw [hnil] at h
    cases h
  have hgetLast : (names.rdropWhile (· = "")).getLast hne = last :=
    Option.some.inj ((List.getLast?_eq_some_getLast hne).symm.trans h)
  have hlastNot := List.rdropWhile_last_not (· = "") names hne
  rw [hgetLast] at hlastNot
  simpa using hlastNot

/-- Dropping the empty names at the end keeps all names when it keeps as many. -/
theorem rdropWhile_eq_of_not_lt {names : List String}
    (h : ¬(names.rdropWhile (· = "")).length < names.length) :
    names.rdropWhile (· = "") = names :=
  have hprefix : names.rdropWhile (· = "") <+: names := List.rdropWhile_prefix _ _
  hprefix.eq_of_length (Nat.le_antisymm hprefix.length_le (Nat.le_of_not_lt h))

/-- The place a write puts its file at is the place its path leads to: the parent
directory's child under the last name. -/
theorem locate_of_write {ws : Workspace} {path last : String} {parent : Place}
    (hkept : (path.splitOn "/").rdropWhile (· = "") = path.splitOn "/")
    (hlast : (path.splitOn "/").getLast? = some last) (hdot : ¬(last = "." ∨ last = ".."))
    (hparent : ws.dirAt (Place.start path) (path.splitOn "/").dropLast = .ok parent)
    (hlong : ¬last.utf8ByteSize > nameMax) :
    ws.locate path = .ok (parent.child last) := by
  have hempty : last ≠ "" := ne_empty_of_getLast?_rdropWhile (hkept ▸ hlast)
  obtain ⟨hwalk, hdir⟩ := walk_eq_of_dirAt hparent
  have hsplit := List.dropLast_append_getLast? last hlast
  rw [locate, ← hsplit, walk_append, hwalk]
  have hdot₁ : last ≠ "." := fun h => hdot (Or.inl h)
  have hdot₂ : last ≠ ".." := fun h => hdot (Or.inr h)
  show ws.walk parent [last] = _
  rw [walk_cons_of_dir hdir]
  simp only [hempty, hdot₁, hdot₂, hlong, false_or, if_false]
  rfl

/-- A write that succeeds is given a path with no problem, which leads to a place that is
not a directory. The files stay as they were when that place holds a device or lies
outside the workspace; otherwise they are the files with the text's bytes set there. -/
theorem write_eq_ok_cases {ws ws' : Workspace} {path text : String}
    (h : ws.write path text = .ok ws') :
    pathProblem? path = none ∧ ∃ pl, ws.locate path = .ok pl ∧ ws.nodeAt? pl ≠ some .dir ∧
      ((ws' = ws ∧ (ws.nodeAt? pl = some .sink ∨ ∃ q, pl = .outside q)) ∨
        ∃ p, pl = .inside p ∧ p ≠ [] ∧ ws.nodeAt? pl ≠ some .sink ∧
          ws' = ws.setFile p text.toUTF8) := by
  unfold write at h
  split at h
  · cases h
  rename_i hproblem
  refine ⟨hproblem, ?_⟩
  dsimp only at h
  split at h
  · cases h
  rename_i last hlast
  split at h
  · split at h <;> cases h
  rename_i hdot
  split at h
  · cases h
  rename_i parent hparent
  split at h
  · cases h
  rename_i htrail
  split at h
  · cases h
  rename_i hlong
  have hkept := rdropWhile_eq_of_not_lt htrail
  change List.getLast? ((path.splitOn "/").rdropWhile (· = "")) = some last at hlast
  change ws.dirAt _ (List.dropLast ((path.splitOn "/").rdropWhile (· = ""))) = .ok parent
    at hparent
  rw [hkept] at hlast hparent
  refine ⟨parent.child last, locate_of_write hkept hlast hdot hparent hlong, ?_⟩
  split at h
  · cases h
  · rename_i hsink
    cases h
    exact ⟨by rw [hsink]; simp, .inl ⟨rfl, .inl hsink⟩⟩
  · rename_i q hdir _
    cases h
    exact ⟨hdir, .inl ⟨rfl, .inr ⟨q ++ [last], rfl⟩⟩⟩
  · rename_i dir hdir hsink
    cases h
    exact ⟨hdir, .inr ⟨dir ++ [last], rfl, by simp, hsink, rfl⟩⟩

/-- A write that succeeds changes the files at most at the place its path leads to. When
that place holds a device or lies outside the workspace nothing changes; otherwise the
place holds the text's bytes, every other entry is as it was, and the path reads back as
the text. Either way every path that avoids the place reads as before. -/
theorem read_after_write {ws ws' : Workspace} {path text : String}
    (h : ws.write path text = .ok ws') :
    ∃ pl, ws.locate path = .ok pl ∧ (∀ q, ws.Avoids q pl → ws'.read q = ws.read q) ∧
      ((ws' = ws ∧ (ws.nodeAt? pl = some .sink ∨ ∃ q, pl = .outside q)) ∨
        ∃ p, pl = .inside p ∧ ws'.find? p = some (.file text.toUTF8) ∧
          (∀ q, q ≠ p → ws'.find? q = ws.find? q) ∧ ws'.read path = .ok text) := by
  obtain ⟨hproblem, pl, hloc, hdir, hcases⟩ := write_eq_ok_cases h
  refine ⟨pl, hloc, ?_⟩
  rcases hcases with ⟨rfl, hkind⟩ | ⟨p, rfl, hp, -, rfl⟩
  · exact ⟨fun _ _ => rfl, .inl ⟨rfl, hkind⟩⟩
  · exact ⟨fun _ hq => read_setFile_of_avoids _ hq,
      .inr ⟨p, rfl, find?_setFile_self ws hp _, fun _ hq => find?_setFile_of_ne ws hq _,
        read_setFile_self hp hdir text hproblem hloc⟩⟩

end Workspace
end BrainfuckDialect
