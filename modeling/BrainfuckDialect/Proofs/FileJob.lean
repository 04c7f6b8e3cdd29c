import BrainfuckDialect.Job
import BrainfuckDialect.Session
import BrainfuckDialect.Proofs.DialectTable

/-!
# What translating a file does to the files

Run on a session, translating a file is a function of the session's files alone: it
loads the dialect, builds its table, reads the input and writes the translation to the
output, stops at the first failure, and reports records on the way. The staged function
`Workspace.translateJob` says what each stage reads and which error it gives, and
`translateFile_stages` shows that the job acts as it says on every session.

Each stage gets one lemma saying how it acts on the files (`ActsOnFiles`), and the job's
lemma is assembled from them through the bind lemma. Only the write acts on the files,
so a failed job leaves them as they were, and a job that succeeds changes them only by
writing the translation of the input's text as it was before the job.
-/

namespace BrainfuckDialect

/-- The dialect a job loads from the files of `ws`: from the config at `explicit`, which
must be readable, else from the default config at `fallback`, whose absence means the
letters dialect, as does having no default config. -/
def Workspace.jobDialect (ws : Workspace) (explicit fallback : Option String) :
    Except JobError Dialect :=
  match explicit, fallback with
  | some path, _ =>
    match ws.read path with
    | .ok content => (parseConfig content).mapError .config
    | .error e => .error (.read path e)
  | none, none => .ok Dialect.letters
  | none, some path =>
    match ws.read path with
    | .ok content => (parseConfig content).mapError .config
    | .error .notFound => .ok Dialect.letters
    | .error e => .error (.read path e)

/-- The stages of a job on the files of `ws`, in order, each failing with its own error:
load the dialect, build its table, read the input, translate it, write the output. The
translated document with the files after the write, or the first failure. -/
def Workspace.translateJob (ws : Workspace) (input output : String)
    (config fallback : Option String) : Except JobError (Document × Workspace) := do
  let d ← ws.jobDialect config fallback
  let t ← d.fileTable.mapError .conflict
  let text ← (ws.read input).mapError (.read input)
  let doc := (Document.ofText text).translate t
  let ws' ← (ws.write output doc.toText).mapError (.write output)
  pure (doc, ws')

/-- The table a job uses is the strict table of its dialect, failure included: the
letters dialect, which gets the lenient table, passes the strict checks with it. -/
theorem Dialect.fileTable_eq_strictTable (d : Dialect) : d.fileTable = d.strictTable := by
  unfold Dialect.fileTable
  split
  · rename_i hd
    rw [hd, Dialect.letters_strictTable]
  · rfl

theorem Except.bind_eq_ok {x : Except ε α} {f : α → Except ε β} {b : β}
    (h : x >>= f = .ok b) : ∃ a, x = .ok a ∧ f a = .ok b := by
  cases x with
  | error e => cases h
  | ok a => exact ⟨a, rfl, h⟩

theorem Except.mapError_eq_ok {x : Except ε α} {g : ε → ε'} {a : α}
    (h : x.mapError g = .ok a) : x = .ok a := by
  cases x with
  | error e => cases h
  | ok a' => cases h; rfl

/-- A job succeeds exactly when it loads a dialect whose strict table exists, reads the
input, and writes the translation of the text it read to the output. -/
theorem Workspace.translateJob_eq_ok_iff {ws ws' : Workspace} {input output : String}
    {config fallback : Option String} {doc : Document} :
    ws.translateJob input output config fallback = .ok (doc, ws') ↔
      ∃ d t text, ws.jobDialect config fallback = .ok d ∧ d.strictTable = .ok t ∧
        ws.read input = .ok text ∧ doc = (Document.ofText text).translate t ∧
        ws.write output doc.toText = .ok ws' := by
  constructor
  · intro h
    obtain ⟨d, hd, h⟩ := Except.bind_eq_ok h
    obtain ⟨t, ht, h⟩ := Except.bind_eq_ok h
    obtain ⟨text, hr, h⟩ := Except.bind_eq_ok h
    obtain ⟨ws'', hw, h⟩ := Except.bind_eq_ok h
    cases h
    refine ⟨d, t, text, hd, ?_, Except.mapError_eq_ok hr, rfl, Except.mapError_eq_ok hw⟩
    rw [← Dialect.fileTable_eq_strictTable]
    exact Except.mapError_eq_ok ht
  · rintro ⟨d, t, text, hd, ht, hr, rfl, hw⟩
    rw [← Dialect.fileTable_eq_strictTable] at ht
    simp only [translateJob, hd, bind, Except.bind, ht, hr, hw, Except.mapError]
    rfl

/-! ## Host operations on a session -/

namespace Session

@[simp] theorem run_readFile (s : Session) (path : String) :
    (Host.readFile path : StateM Session _).run s = (s.files.read path, s) := rfl

@[simp] theorem run_reportAll (rs : List Record) (s : Session) :
    (reportAll rs : StateM Session Unit).run s = ((), ⟨s.files, s.records ++ rs⟩) := by
  induction rs generalizing s with
  | nil => simp [reportAll]; rfl
  | cons r rs ih =>
      have hstep := ih ⟨s.files, s.records ++ [r]⟩
      simp only [reportAll] at hstep ⊢
      rw [List.forM, StateT.run_bind]
      rw [List.append_assoc, List.singleton_append] at hstep
      exact hstep

theorem run_writeFile (s : Session) (path text : String) :
    (Host.writeFile path text : StateM Session _).run s =
      match s.files.write path text with
      | .ok ws => (.ok (), ⟨ws, s.records⟩)
      | .error e => (.error e, s) := by
  cases h : s.files.write path text with
  | ok ws => simp only [Host.writeFile, StateT.run_bind, StateT.run_get, pure_bind, h]; rfl
  | error e => simp only [Host.writeFile, StateT.run_bind, StateT.run_get, pure_bind, h]; rfl

end Session

/-! ## Job steps -/

/-- Run on any session, the job step `x` acts on its files as `f` says, and otherwise only
adds records. -/
def ActsOnFiles (x : ExceptT JobError (StateM Session) α)
    (f : Workspace → Except JobError α × Workspace) : Prop :=
  ∀ s : Session, ∃ rs, x.run.run s = ((f s.files).1, ⟨(f s.files).2, s.records ++ rs⟩)

namespace ActsOnFiles

variable {x : ExceptT JobError (StateM Session) α}
  {f g : Workspace → Except JobError α × Workspace}

theorem congr (hx : ActsOnFiles x f) (h : ∀ ws, f ws = g ws) : ActsOnFiles x g := by
  rw [← funext h]
  exact hx

theorem pure (a : α) :
    ActsOnFiles (Pure.pure a : ExceptT JobError (StateM Session) α) (fun ws => (.ok a, ws)) :=
  fun s => ⟨[], by simp; rfl⟩

theorem throw (e : JobError) :
    ActsOnFiles (MonadExcept.throw e : ExceptT JobError (StateM Session) α)
      (fun ws => (.error e, ws)) :=
  fun s => ⟨[], by simp; rfl⟩

/-- A step followed by a continuation acts as the step, then, on success, as the
continuation at the step's result on the files the step left. -/
theorem bind {y : α → ExceptT JobError (StateM Session) β}
    (h : α → Workspace → Except JobError β × Workspace) (hx : ActsOnFiles x f)
    (hy : ∀ a, ActsOnFiles (y a) (h a)) :
    ActsOnFiles (x >>= y) (fun ws =>
      match f ws with
      | (.ok a, ws') => h a ws'
      | (.error e, ws') => (.error e, ws')) := by
  intro s
  obtain ⟨rs, hrun⟩ := hx s
  simp only [ExceptT.run_bind, StateT.run_bind, hrun]
  rcases hf : f s.files with ⟨r, ws'⟩
  cases r with
  | ok a =>
      obtain ⟨rs', hrun'⟩ := hy a ⟨ws', s.records ++ rs⟩
      refine ⟨rs ++ rs', ?_⟩
      rw [← List.append_assoc]
      exact hrun'
  | error e =>
      exact ⟨rs, rfl⟩

/-- A host computation lifted into a job step. -/
theorem lift {z : StateM Session α} (f : Workspace → α × Workspace)
    (hz : ∀ s : Session, ∃ rs, z.run s = ((f s.files).1, ⟨(f s.files).2, s.records ++ rs⟩)) :
    ActsOnFiles (liftM z : ExceptT JobError (StateM Session) α)
      (fun ws => (.ok (f ws).1, (f ws).2)) := by
  intro s
  obtain ⟨rs, hrun⟩ := hz s
  refine ⟨rs, ?_⟩
  show (Except.ok <$> z).run s = _
  rw [StateT.run_map, hrun]
  rfl

end ActsOnFiles

theorem actsOnFiles_readFile (path : String) :
    ActsOnFiles (liftM (Host.readFile path : StateM Session _))
      (fun ws => (.ok (ws.read path), ws)) :=
  ActsOnFiles.lift (fun ws => (ws.read path, ws)) fun _ => ⟨[], by simp⟩

theorem actsOnFiles_reportAll (rs : List Record) :
    ActsOnFiles (liftM (reportAll rs : StateM Session Unit)) (fun ws => (.ok (), ws)) :=
  ActsOnFiles.lift (fun ws => ((), ws)) fun s => ⟨rs, Session.run_reportAll rs s⟩

theorem actsOnFiles_writeFile (path text : String) :
    ActsOnFiles (liftM (Host.writeFile path text : StateM Session _))
      (fun ws => match ws.write path text with
        | .ok ws' => (.ok (.ok ()), ws')
        | .error e => (.ok (.error e), ws)) := by
  let f : Workspace → Except IoError Unit × Workspace := fun ws =>
    match ws.write path text with
    | .ok ws' => (.ok (), ws')
    | .error e => (.error e, ws)
  refine (ActsOnFiles.lift f fun s => ⟨[], ?_⟩).congr fun ws => ?_
  · rw [Session.run_writeFile, List.append_nil]
    cases h : s.files.write path text with
    | ok ws' => simp only [f, h]
    | error e => simp only [f, h]
  · cases h : ws.write path text with
    | ok ws' => simp only [f, h]
    | error e => simp only [f, h]

theorem actsOnFiles_readDialect (path content : String) :
    ActsOnFiles (readDialect path content : ExceptT JobError (StateM Session) Dialect)
      (fun ws => ((parseConfig content).mapError .config, ws)) := by
  unfold readDialect
  cases parseConfig content with
  | ok d =>
      exact ActsOnFiles.bind _ (actsOnFiles_reportAll _) fun _ => ActsOnFiles.pure d
  | error e =>
      exact ActsOnFiles.bind _ (actsOnFiles_reportAll _) fun _ => ActsOnFiles.throw (.config e)

theorem actsOnFiles_loadDialect (explicit fallback : Option String) :
    ActsOnFiles (loadDialect explicit fallback : ExceptT JobError (StateM Session) Dialect)
      (fun ws => (ws.jobDialect explicit fallback, ws)) := by
  unfold loadDialect
  cases explicit with
  | some path =>
      refine ActsOnFiles.bind
        (fun r ws => (match r with
          | .ok content => (parseConfig content).mapError .config
          | .error e => .error (.read path e), ws)) (actsOnFiles_readFile path) ?_
      rintro (e | content)
      · exact ActsOnFiles.throw _
      · exact actsOnFiles_readDialect path content
  | none =>
      cases fallback with
      | none => exact ActsOnFiles.pure _
      | some path =>
          refine ActsOnFiles.bind
            (fun r ws => (match r with
              | .ok content => (parseConfig content).mapError .config
              | .error .notFound => .ok Dialect.letters
              | .error e => .error (.read path e), ws)) (actsOnFiles_readFile path) ?_
          rintro (e | content)
          · cases e with
            | notFound =>
                exact ActsOnFiles.bind _ (actsOnFiles_reportAll _) fun _ => ActsOnFiles.pure _
            | _ => exact ActsOnFiles.throw _
          · exact actsOnFiles_readDialect path content

theorem actsOnFiles_tableOf (d : Dialect) :
    ActsOnFiles (tableOf d : ExceptT JobError (StateM Session) SymbolTable)
      (fun ws => (d.fileTable.mapError .conflict, ws)) := by
  unfold tableOf
  cases d.fileTable with
  | ok t =>
      exact ActsOnFiles.bind _ (actsOnFiles_reportAll _) fun _ => ActsOnFiles.pure t
  | error c =>
      exact ActsOnFiles.bind _ (actsOnFiles_reportAll _) fun _ => ActsOnFiles.throw (.conflict c)

theorem actsOnFiles_readDocument (path : String) :
    ActsOnFiles (readDocument path : ExceptT JobError (StateM Session) Document)
      (fun ws => (Document.ofText <$> (ws.read path).mapError (.read path), ws)) := by
  unfold readDocument
  refine ActsOnFiles.bind
    (fun r ws => (Document.ofText <$> r.mapError (.read path), ws)) (actsOnFiles_readFile path) ?_
  rintro (e | text)
  · exact ActsOnFiles.throw _
  · exact ActsOnFiles.bind _ (actsOnFiles_reportAll _) fun _ => ActsOnFiles.pure _

/-- Writing a document is the only step that acts on the files: they become the files
after the write when it succeeds, and stay as they were when it fails. -/
theorem actsOnFiles_writeDocument (path : String) (doc : Document) :
    ActsOnFiles (writeDocument path doc : ExceptT JobError (StateM Session) Unit)
      (fun ws => match ws.write path doc.toText with
        | .ok ws' => (.ok (), ws')
        | .error e => (.error (.write path e), ws)) := by
  unfold writeDocument
  refine (ActsOnFiles.bind (fun r ws => (r.mapError (.write path), ws))
    (actsOnFiles_writeFile path doc.toText) ?_).congr ?_
  · rintro (e | ⟨⟩)
    · exact ActsOnFiles.throw _
    · exact actsOnFiles_reportAll _
  · intro ws
    cases ws.write path doc.toText <;> rfl

/-- The job acts on the files as its stages say: the files after the write when every
stage succeeds, the files as they were at the first failure. The proof takes one case per
stage, in the order the job runs them. -/
theorem actsOnFiles_translateFile (input output : String)
    (config fallback : Option String) :
    ActsOnFiles (translateFile input output config fallback : ExceptT JobError (StateM Session) _)
      (fun ws => match ws.translateJob input output config fallback with
        | .ok (doc, ws') => (.ok doc, ws')
        | .error e => (.error e, ws)) := by
  unfold translateFile
  refine (ActsOnFiles.bind _ (actsOnFiles_loadDialect config fallback) fun d =>
    ActsOnFiles.bind _ (actsOnFiles_tableOf d) fun t =>
    ActsOnFiles.bind _ (actsOnFiles_readDocument input) fun doc =>
    ActsOnFiles.bind _ (actsOnFiles_reportAll _) fun _ =>
    ActsOnFiles.bind _ (actsOnFiles_writeDocument output (doc.translate t)) fun _ =>
    ActsOnFiles.bind _ (actsOnFiles_reportAll _) fun _ => ActsOnFiles.pure _).congr ?_
  intro ws
  dsimp only
  cases hd : ws.jobDialect config fallback with
  | error e => simp only [Workspace.translateJob, hd]; rfl
  | ok d =>
      cases ht : d.fileTable with
      | error c => simp only [Workspace.translateJob, hd, bind, Except.bind, ht]; rfl
      | ok t =>
          cases hr : ws.read input with
          | error e =>
              simp only [Workspace.translateJob, hd, bind, Except.bind, ht, hr, Except.mapError]
              rfl
          | ok text =>
              cases hw : ws.write output ((Document.ofText text).translate t).toText with
              | error e =>
                  simp only [Workspace.translateJob, hd, bind, Except.bind, ht, hr, hw,
                    Except.mapError, Functor.map, Except.map]
              | ok ws' =>
                  simp only [Workspace.translateJob, hd, bind, Except.bind, ht, hr, hw,
                    Except.mapError, Functor.map, Except.map]
                  rfl

theorem run_translateFile_of_ok {s : Session} {input output : String}
    {config fallback : Option String} {doc : Document} {ws' : Workspace}
    (h : s.files.translateJob input output config fallback = .ok (doc, ws')) :
    ∃ rs, (translateFile input output config fallback :
      ExceptT JobError (StateM Session) Document).run.run s =
        (.ok doc, ⟨ws', s.records ++ rs⟩) := by
  obtain ⟨rs, hrun⟩ := actsOnFiles_translateFile input output config fallback s
  refine ⟨rs, ?_⟩
  rw [hrun]
  dsimp only
  rw [h]

theorem run_translateFile_of_error {s : Session} {input output : String}
    {config fallback : Option String} {e : JobError}
    (h : s.files.translateJob input output config fallback = .error e) :
    ∃ rs, (translateFile input output config fallback :
      ExceptT JobError (StateM Session) Document).run.run s =
        (.error e, ⟨s.files, s.records ++ rs⟩) := by
  obtain ⟨rs, hrun⟩ := actsOnFiles_translateFile input output config fallback s
  refine ⟨rs, ?_⟩
  rw [hrun]
  dsimp only
  rw [h]

/-- Translating a file runs the job's stages in order and stops at the first failure, on
any files and after any records. It fails with the first failing stage's error and
leaves the files as they were, or it succeeds with the translation of the input's text
as it was before the job, input and output the same file or not, and leaves the files
as writing that translation to the output leaves them; either way it only adds records.
The table it uses is the strict table of the dialect. -/
theorem translateFile_stages (input output : String)
    (config fallback : Option String) :
    (∀ (ws : Workspace) (records : List Record), ∃ rs,
      (translateFile input output config fallback :
          ExceptT JobError (StateM Session) Document).run.run ⟨ws, records⟩ =
        match ws.translateJob input output config fallback with
        | .ok (doc, ws') => (.ok doc, ⟨ws', records ++ rs⟩)
        | .error e => (.error e, ⟨ws, records ++ rs⟩)) ∧
      (∀ (ws ws' : Workspace) (doc : Document),
        ws.translateJob input output config fallback = .ok (doc, ws') ↔
          ∃ d t text, ws.jobDialect config fallback = .ok d ∧ d.strictTable = .ok t ∧
            ws.read input = .ok text ∧ doc = (Document.ofText text).translate t ∧
            ws.write output doc.toText = .ok ws') ∧
      (∀ d : Dialect, d.fileTable = d.strictTable) := by
  refine ⟨fun ws records => ?_, fun _ _ _ => Workspace.translateJob_eq_ok_iff,
    Dialect.fileTable_eq_strictTable⟩
  obtain ⟨rs, hrun⟩ := actsOnFiles_translateFile input output config fallback ⟨ws, records⟩
  refine ⟨rs, hrun.trans ?_⟩
  dsimp only
  rcases ws.translateJob input output config fallback with e | ⟨doc, ws'⟩
  · rfl
  · rfl

end BrainfuckDialect
